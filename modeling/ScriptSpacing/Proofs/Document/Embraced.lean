import ScriptSpacing.Proofs.Document.Located

/-!
# `Proofs.Document.Embraced` — which pairs are around their node

A pair that is found should be around every token of its node, save for the semicolon behind a statement. It
is, with one exception: a pair may also end one token before its node does, and that lets an update find the
parentheses around its operand, with its operator outside (`find?_embraces_iff`).
-/

namespace ScriptSpacing

/-! ## Tokens between tokens -/

namespace Code

/-- The position of a code token. -/
def position? (code : Code) (id : TokenId) : Option Nat := code.tokens.toList.findIdx? (·.1 == id)

/-- The code token `x` is one of those from `a` to `b`. -/
def Between (code : Code) (a x b : TokenId) : Prop :=
  ∃ i q j, code.position? a = some i ∧ code.position? x = some q ∧ code.position? b = some j ∧
    i ≤ q ∧ q ≤ j

instance (code : Code) (a x b : TokenId) : Decidable (code.Between a x b) :=
  decidable_of_iff ((code.position? a).any (fun i => (code.position? x).any (fun q =>
      (code.position? b).any (fun j => decide (i ≤ q ∧ q ≤ j)))) = true) (by
    simp only [Option.any_eq_true, decide_eq_true_eq]
    constructor
    · rintro ⟨i, hi, q, hq, j, hj, hle⟩
      exact ⟨i, q, j, hi, hq, hj, hle⟩
    · rintro ⟨i, q, j, hi, hq, hj, hle⟩
      exact ⟨i, hi, q, hq, j, hj, hle⟩)

end Code

/-- **A pair is around the code tokens of a node**, but for the semicolon that ends a statement. -/
def Pair.Embraces (ch : Chain) (n : Node) (p : Pair) : Prop :=
  ∀ first last x, n.first = some first → n.last = some last →
    (Code.ofChain ch).Between first x last →
    (Code.ofChain ch).Between p.opening x p.closing ∨
      (n.kind = .expressionStatement ∧ x = last ∧ ch.test (·.is ";") x = true)

section Between

variable {ch : Chain} {es : List Linked} {a b e : Linked} {i j q : Nat} {x : TokenId}

theorem Chain.Holds.position?_eq (h : Chain.Holds ch es) (hi : (Code.ofChain ch).at? i = some e) :
    (Code.ofChain ch).position? e.1 = some i := by
  have hget : (Code.ofChain ch).tokens.toList[i]? = some e := by simpa [Code.at?] using hi
  obtain ⟨hlt, hget⟩ := List.getElem?_eq_some_iff.mp hget
  unfold Code.position?
  rw [List.findIdx?_eq_some_iff_getElem]
  refine ⟨hlt, by simp [hget], ?_⟩
  -- an earlier token with the handle would be at two positions
  intro k hk hid
  have hat : (Code.ofChain ch).at? k = some ((Code.ofChain ch).tokens.toList[k]) := by
    simp [Code.at?]
  have := (h.at?_inj hat hi).mp (by simpa using hid)
  omega

theorem Code.exists_of_position? {code : Code} (h : code.position? x = some i) :
    ∃ e, code.at? i = some e ∧ e.1 = x := by
  unfold Code.position? at h
  rw [List.findIdx?_eq_some_iff_getElem] at h
  obtain ⟨hlt, hid, -⟩ := h
  exact ⟨code.tokens.toList[i], by simp [Code.at?], by simpa using hid⟩

/-- A token is between two others when its position is. -/
theorem Chain.Holds.between_iff (h : Chain.Holds ch es) (hi : (Code.ofChain ch).at? i = some a)
    (hq : (Code.ofChain ch).at? q = some e) (hj : (Code.ofChain ch).at? j = some b) :
    (Code.ofChain ch).Between a.1 e.1 b.1 ↔ i ≤ q ∧ q ≤ j := by
  unfold Code.Between
  rw [h.position?_eq hi, h.position?_eq hq, h.position?_eq hj]
  constructor
  · rintro ⟨i', q', j', ⟨⟩, ⟨⟩, ⟨⟩, hle⟩
    exact hle
  · intro hle
    exact ⟨i, q, j, rfl, rfl, rfl, hle⟩

end Between

/-! ## Found pairs -/

namespace Document

variable {d : Document} {ts : List Token} {id : NodeId} {n : Node} {p : Pair} {i j k m : Nat}

/-- A pair is around a node when it is around its span, by position. -/
theorem Of.embraces_iff (h : d.Of ts) (hs : n.Spans (Code.ofChain d.chain) i j)
    (hat : p.At (Code.ofChain d.chain) k m) :
    p.Embraces d.chain n ↔ ∀ q, i ≤ q → q ≤ j → (k ≤ q ∧ q ≤ m) ∨
      (n.kind = .expressionStatement ∧ q = j ∧ (Code.ofChain d.chain).is j ";" = true) := by
  obtain ⟨a, ha, hfirst⟩ := hs.first
  obtain ⟨b, hb, hlast⟩ := hs.last
  obtain ⟨c, hc, hopening⟩ := hat.opening
  obtain ⟨e, he, hclosing⟩ := hat.closing
  unfold Pair.Embraces
  rw [hopening, hclosing, hfirst, hlast]
  constructor
  · intro hembraces q hi hj
    obtain ⟨x, hx⟩ := hs.nests.exists_at? hi (Nat.lt_succ_of_le hj)
    rcases hembraces a.1 b.1 x.1 rfl rfl ((h.holds.between_iff ha hx hb).mpr ⟨hi, hj⟩) with
      hbetween | ⟨hkind, hxb, hsemi⟩
    · exact .inl ((h.holds.between_iff hc hx he).mp hbetween)
    · obtain rfl := (h.holds.at?_inj hx hb).mp hxb
      rw [h.holds.test_code hx, ← Code.is_eq_of_at? hx] at hsemi
      exact .inr ⟨hkind, rfl, hsemi⟩
  · rintro hspan _ _ x ⟨⟩ ⟨⟩ hbetween
    obtain ⟨-, q, -, -, hq, -, -⟩ := id hbetween
    obtain ⟨y, hy, rfl⟩ := Code.exists_of_position? hq
    obtain ⟨hi, hj⟩ := (h.holds.between_iff ha hy hb).mp hbetween
    rcases hspan q hi hj with hin | ⟨hkind, rfl, hsemi⟩
    · exact .inl ((h.holds.between_iff hc hy he).mpr hin)
    · refine .inr ⟨hkind, (h.holds.at?_inj hy hb).mpr rfl, ?_⟩
      rw [h.holds.test_code hy, ← Code.is_eq_of_at? hy]
      exact hsemi

/-- **Which pairs that are found are around their node**: all but an operand's, found for an update. -/
theorem Of.embraces_iff_of_found (h : d.Of ts) (hn : d.tree.arena.get? id = some n)
    (hfound : Pair.find? d.chain d.tree.arena id = some p) :
    p.Embraces d.chain n ↔ ¬(n.kind = .updateExpression ∧ n.first = some p.opening) := by
  have hspace := (Pair.find?_eq_some_iff.mp hfound).1
  by_cases hlead : n.kind.isBinaryLike = true ∨ n.first.any (d.chain.test (·.is "(")) = false
  -- a pair in front of the node is around it
  · obtain ⟨i, j, hs⟩ := h.exists_spans hn hspace
    obtain ⟨k, m, hat, henc⟩ := (h.find?_eq_some_iff hn hspace hs).mp hfound
    obtain rfl := h.succ_eq_of_encloses hs hlead henc
    obtain ⟨-, rfl⟩ := h.wrapped_of_closes hs hat henc.closes henc.ending
    obtain ⟨a, ha, hfirst⟩ := hs.first
    obtain ⟨c, hc, hopening⟩ := hat.opening
    rw [h.embraces_iff hs hat]
    constructor
    · rintro - ⟨-, hsame⟩
      rw [hfirst, hopening] at hsame
      have := (h.holds.at?_inj ha hc).mp (Option.some.inj hsame)
      omega
    · intro _ q hi hj
      exact .inl ⟨by omega, by omega⟩
  -- otherwise it opens with the node, and ends as the node goes on
  · simp only [not_or, Bool.not_eq_true, Bool.not_eq_false] at hlead
    obtain ⟨i, j, hs, hgoes⟩ := h.exists_opening hn hspace hlead.1
    have hopen := hlead.2
    rw [h.first_any hs] at hopen
    obtain ⟨m, hm, hcloses⟩ := hs.nests.exists_closes (Nat.lt_succ_of_le hs.le) hopen
    obtain ⟨hat, hending⟩ :=
      (h.find?_eq_some_iff_ending hn hspace hlead.1 hs hcloses).mp hfound
    obtain ⟨a, ha, hfirst⟩ := hs.first
    obtain ⟨c, hc, hopening⟩ := hat.opening
    have hsame : n.first = some p.opening := by
      rw [hfirst, hopening]
      exact congrArg some ((h.holds.at?_inj ha hc).mpr rfl)
    rw [h.embraces_iff hs hat]
    cases hgoes m hcloses with
    | shared hkind hinner hshare =>
        exact absurd hshare (Arena.first_ne_of_takesSpace hn hspace hkind hinner)
    | whole hkind hend =>
        constructor
        · rintro - ⟨hupdate, -⟩
          rw [hkind] at hupdate
          cases hupdate
        · intro _ q hi hj
          by_cases hq : q ≤ m
          · exact .inl ⟨hi, hq⟩
          · rcases hend with rfl | ⟨rfl, hsemi⟩
            · exact absurd hj hq
            · exact .inr ⟨hkind, by omega, hsemi⟩
    | operand hkind hlt _ _ =>
        constructor
        · intro hspan
          rcases hspan j hs.le (Nat.le_refl j) with ⟨-, hle⟩ | ⟨hstmt, -⟩
          · omega
          · rw [hkind] at hstmt
            cases hstmt
        · intro hnot
          exact absurd ⟨hkind, hsame⟩ hnot
    | further _ _ hlt => omega

end Document

/-- **A pair that is found is around its node**, up to the semicolon of a statement, unless the node is an
    update that begins with the pair. -/
theorem find?_embraces_iff {s : String} {d : Document} (h : Document.read s = .ok d) {id : NodeId}
    {n : Node} (hn : d.tree.arena.get? id = some n) {p : Pair}
    (hfound : Pair.find? d.chain d.tree.arena id = some p) :
    p.Embraces d.chain n ↔ ¬(n.kind = .updateExpression ∧ n.first = some p.opening) := by
  obtain ⟨ts, hof, -⟩ := Document.read_eq_ok_iff.mp h
  exact hof.embraces_iff_of_found hn hfound

/-- A statement with its semicolon behind the pair. -/
theorem find?_embraces_iff_statement :
    ∃ d n, Document.read "(a + b);" = .ok d ∧ d.tree.arena.get? 3 = some n ∧
      Pair.find? d.chain d.tree.arena 3 = some ⟨0, 6⟩ ∧ n.last = some 7 ∧
      (Pair.Embraces d.chain n ⟨0, 6⟩ ↔
        ¬(n.kind = .updateExpression ∧ n.first = some 0)) := by
  obtain ⟨d, hread, hnode, hfound⟩ := Document.exists_read (s := "(a + b);")
    (fun d => d.tree.arena.get? 3 =
        some ⟨.expressionStatement, some 0, some 7, some 2, none, [2]⟩ ∧
      Pair.find? d.chain d.tree.arena 3 = some ⟨0, 6⟩)
    (by decide +kernel)
  exact ⟨d, _, hread, hnode, hfound, rfl, find?_embraces_iff hread hnode hfound⟩

/-- **The parentheses of an operand are found for the update around it**, whose operator is outside. -/
theorem find?_not_embraces_update :
    ∃ d n, Document.read "(a)++;" = .ok d ∧ d.tree.arena.get? 1 = some n ∧
      Pair.find? d.chain d.tree.arena 1 = some ⟨0, 2⟩ ∧ ¬ Pair.Embraces d.chain n ⟨0, 2⟩ := by
  obtain ⟨d, hread, hnode, hfound, hspan, hout⟩ := Document.exists_read (s := "(a)++;")
    (fun d => d.tree.arena.get? 1 = some ⟨.updateExpression, some 0, some 3, none, none, [0]⟩ ∧
      Pair.find? d.chain d.tree.arena 1 = some ⟨0, 2⟩ ∧
      (Code.ofChain d.chain).Between 0 3 3 ∧ ¬ (Code.ofChain d.chain).Between 0 3 2)
    (by decide +kernel)
  refine ⟨d, _, hread, hnode, hfound, ?_⟩
  intro hembraces
  rcases hembraces 0 3 3 rfl rfl hspan with hin | ⟨hstmt, -⟩
  · exact hout hin
  · cases hstmt

end ScriptSpacing
