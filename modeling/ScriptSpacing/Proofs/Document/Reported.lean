import ScriptSpacing.Proofs.Document.Format
import ScriptSpacing.Proofs.Document.Located
import ScriptSpacing.Proofs.Document.Offsets
import ScriptSpacing.Proofs.Syntax.Postorder

/-!
# `Proofs.Document.Reported` — reported parentheses are where they are said to be, and balance

A report goes a long way from a node to a line and a column: the locator finds two handles by a scan over texts,
the handles index a table of positions, and the table was filled by stepping over bytes. Nothing on the way
looks at the text again. `PairReport.Describes` says of one report, over the text and its tokens alone, that it
is right all the same: at the two places stand the bytes of the two parentheses, no other token has a part in
them, and between them the depth stays above zero (`Token.PairAt`).

The locator is the same for every node, also for one that never takes space, so where its pair stands is told
without the node's span (`Pair.matches_of_around?`).
-/

namespace ScriptSpacing

/-! ## Depth over all tokens -/

namespace Token

/-- The depth of parentheses behind token `q`, counted from token `i` on. -/
def depthFrom (ts : List Token) (i q : Nat) : Int :=
  (((ts.take (q + 1)).drop i).map Chain.depthStep).sum

/-- **The parentheses at the tokens `i` and `j` balance**: from the first on the depth is above zero in front of
    the second, and zero behind it. -/
structure PairAt (ts : List Token) (i j : Nat) : Prop where
  opening  : ts[i]? = some (.punctuator "(")
  closing  : ts[j]? = some (.punctuator ")")
  lt       : i < j
  positive : ∀ q, i ≤ q → q < j → 0 < depthFrom ts i q
  zero     : depthFrom ts i j = 0

theorem depthFrom_eq {ts : List Token} {i q : Nat} (h : i ≤ q + 1) : depthFrom ts i q =
    ((ts.take (q + 1)).map Chain.depthStep).sum - ((ts.take i).map Chain.depthStep).sum := by
  have hsplit := congrArg (fun us => (us.map Chain.depthStep).sum)
    (List.take_append_drop i (ts.take (q + 1)))
  simp only [List.map_append, List.sum_append, List.take_take, Nat.min_eq_left h] at hsplit
  rw [depthFrom]
  omega

end Token

/-- The number of code tokens in front of an entry. -/
def Linked.codeBefore (es : List Linked) (r : Nat) : Nat := ((es.take r).filter (·.2.isCode)).length

namespace Chain
open Code

variable {ch : Chain} {es A B : List Linked} {e : Linked}

theorem codeBefore_mono (es : List Linked) {r r' : Nat} (h : r ≤ r') :
    Linked.codeBefore es r ≤ Linked.codeBefore es r' := by
  obtain ⟨rest, hrest⟩ : es.take r <+: es.take r' := List.take_prefix_take_left h
  rw [Linked.codeBefore, Linked.codeBefore, ← hrest, List.filter_append, List.length_append]
  exact Nat.le_add_right _ _

theorem codeBefore_append (A B : List Linked) :
    Linked.codeBefore (A ++ B) A.length = (A.filter (·.2.isCode)).length := by
  rw [Linked.codeBefore, List.take_left]

theorem codeBefore_append_cons (he : e.2.isCode = true) (A B : List Linked) :
    Linked.codeBefore (A ++ e :: B) (A.length + 1) = (A.filter (·.2.isCode)).length + 1 := by
  rw [Linked.codeBefore, List.take_length_add_append, List.take_succ_cons, List.take_zero,
    List.filter_append, filter_code_cons he, List.length_append]
  rfl

theorem PlainTrivia.sum_filter (hes : PlainTrivia es) :
    ((es.filter (·.2.isCode)).map (fun e => depthStep e.2)).sum =
      (es.map (fun e => depthStep e.2)).sum := by
  induction es with
  | nil => rfl
  | cons e es ih =>
      have ih' := ih fun x hx => hes x (List.mem_cons_of_mem _ hx)
      rw [List.map_cons, List.sum_cons]
      cases he : e.2.isCode with
      | true => rw [filter_code_cons he, List.map_cons, List.sum_cons, ih']
      | false =>
          rw [List.filter_cons_of_neg (by simp [he]), ih',
            hes.depthStep_eq_zero List.mem_cons_self he, Int.zero_add]

/-- **The depth over the code tokens is that over all entries.** -/
theorem Holds.depth_codeBefore (h : Holds ch es) (hes : PlainTrivia es) (r : Nat) :
    (Code.ofChain ch).depth (Linked.codeBefore es r) =
      ((es.take r).map (fun e => depthStep e.2)).sum := by
  have htokens : (Code.ofChain ch).tokens.toList =
      (es.take r).filter (·.2.isCode) ++ (es.drop r).filter (·.2.isCode) := by
    rw [← List.filter_append, List.take_append_drop]
    simp [Code.ofChain, Code.ofEntries, h.entries_eq]
  have hplain : PlainTrivia (es.take r) := fun e he => hes e (List.mem_of_mem_take he)
  rw [Code.depth, htokens, Linked.codeBefore, List.take_left, hplain.sum_filter]

end Chain

namespace Document

variable {d : Document} {ts : List Token} {p : Pair} {k m : Nat}

/-- A code token by its index among all tokens. -/
theorem Of.index_of_at? (h : d.Of ts) {e : Linked} (hk : (Code.ofChain d.chain).at? k = some e) :
    ts[e.1]? = some e.2 ∧ Linked.codeBefore (Token.numbered ts) e.1 = k ∧
      Linked.codeBefore (Token.numbered ts) (e.1 + 1) = k + 1 := by
  obtain ⟨A, B, hsplit, hcode, hlen⟩ := h.holds.exists_split hk
  obtain ⟨hid, -⟩ := Token.numbered_split hsplit
  refine ⟨Token.getElem?_of_mem_numbered (by simp [hsplit]), ?_, ?_⟩
  · rw [hid, hsplit, Chain.codeBefore_append, hlen]
  · rw [hid, hsplit, Chain.codeBefore_append_cons hcode, hlen]

/-- **Parentheses that close each other balance** among all tokens. -/
theorem Of.pairAt (h : d.Of ts) {c e : Linked} (hc : (Code.ofChain d.chain).at? k = some c)
    (he : (Code.ofChain d.chain).at? m = some e) (hcloses : (Code.ofChain d.chain).Closes k m) :
    Token.PairAt ts c.1 e.1 := by
  obtain ⟨hopen, hk, hk'⟩ := h.index_of_at? hc
  obtain ⟨hclose, hm, hm'⟩ := h.index_of_at? he
  have hbracket : ∀ {t : Token} {i : Nat} {s : String}, ts[i]? = some t → t.text = s → s ∈ brackets →
      t = .punctuator s := by
    intro t i s ht htext hs
    have hkind := h.cut.kind_of_bracket (List.mem_of_getElem? ht) (by rwa [htext])
    obtain ⟨kind, text⟩ := t
    obtain rfl : kind = .punctuator := hkind
    obtain rfl : text = s := htext
    rfl
  have hopener := hcloses.opener
  rw [Code.is_eq_of_at? hc, Token.is_eq_true] at hopener
  have hcloser := hcloses.closer
  rw [Code.is_eq_of_at? he, Token.is_eq_true] at hcloser
  have hlt : c.1 < e.1 := by
    by_contra hge
    have hmono := Chain.codeBefore_mono (Token.numbered ts) (Nat.le_of_not_lt hge)
    have := hcloses.lt
    omega
  -- the depth in front of a token is that in front of the code tokens from there on
  have hdepth : ∀ r, ((ts.take r).map Chain.depthStep).sum =
      (Code.ofChain d.chain).depth (Linked.codeBefore (Token.numbered ts) r) := by
    intro r
    have htake : ts.take r = ((Token.numbered ts).take r).map (·.2) := by
      rw [List.map_take, Token.map_snd_numbered]
    rw [h.holds.depth_codeBefore h.plainTrivia, htake, List.map_map]
    rfl
  have hfrom : ∀ q, c.1 ≤ q + 1 → Token.depthFrom ts c.1 q =
      (Code.ofChain d.chain).depth (Linked.codeBefore (Token.numbered ts) (q + 1)) -
        (Code.ofChain d.chain).depth k := by
    intro q hq
    rw [Token.depthFrom_eq hq, hdepth, hdepth, hk]
  refine ⟨?_, ?_, hlt, ?_, ?_⟩
  · rw [hopen, hbracket hopen hopener (by decide)]
  · rw [hclose, hbracket hclose hcloser (by decide)]
  · intro q hq hqlt
    have hlow := Chain.codeBefore_mono (Token.numbered ts) (Nat.add_le_add_right hq 1)
    have hhigh := Chain.codeBefore_mono (Token.numbered ts) (show q + 1 ≤ e.1 from hqlt)
    have := hcloses.lt_depth (q := Linked.codeBefore (Token.numbered ts) (q + 1)) (by omega) (by omega)
    rw [hfrom q (Nat.le_succ_of_le hq)]
    omega
  · have := hcloses.level
    rw [hfrom e.1 (Nat.le_succ_of_le (Nat.le_of_lt hlt)), hm']
    omega

end Document

/-! ## The located pair -/

namespace Pair

variable {ch : Chain} {es : List Linked} {kind : Node.Kind} {first last : TokenId} {p : Pair}

/-- **Parentheses that are found close each other**, whatever they are looked for. -/
theorem matches_of_around? (h : Chain.Holds ch es) (hes : Chain.PlainTrivia es)
    (hp : around? ch kind first last = some p) : p.Matches (Code.ofChain ch) := by
  obtain ⟨opening, hopening, hp⟩ := Option.bind_eq_some_iff.mp hp
  obtain ⟨closing, hclosing, hp⟩ := Option.bind_eq_some_iff.mp hp
  obtain ⟨-, htest⟩ := Option.filter_eq_some_iff.mp hopening
  obtain rfl : ⟨opening, closing⟩ = p := by
    split at hp
    · exact Option.some.inj hp
    · cases hp
  -- the scan starts at a linked token, and that has the text of a parenthesis
  have hcontains : ch.contains opening = true := by
    unfold Chain.closing? at hclosing
    split at hclosing
    · assumption
    · cases hclosing
  obtain ⟨A, c, B, rfl, rfl⟩ := h.split_of_contains hcontains
  have htext : c.2.text = "(" := by
    rw [h.test_eq (by simp), Token.is_eq_true] at htest
    exact htest
  have hmem : c ∈ (A ++ c :: B).filter (·.2.isCode) :=
    List.mem_filter.mpr ⟨by simp, hes c (by simp) (.inl htext)⟩
  obtain ⟨k, hk⟩ := List.mem_iff_getElem?.mp hmem
  rw [← h.at?_eq] at hk
  obtain ⟨m, e, hm, rfl, hcloses⟩ := (h.closing?_eq_some_iff hes hk htext).mp hclosing
  exact ⟨k, m, ⟨⟨c, hk, rfl⟩, ⟨e, hm, rfl⟩⟩, hcloses⟩

end Pair

/-- **A located pair balances**, of any node. -/
theorem Document.Of.pairAt_of_locate? {d : Document} {ts : List Token} (h : d.Of ts) {id : NodeId}
    {p : Pair} (hp : Pair.locate? d.chain d.tree.arena id = some p) :
    Token.PairAt ts p.opening p.closing := by
  obtain ⟨n, -, hnode⟩ := Option.bind_eq_some_iff.mp hp
  obtain ⟨first, -, hnode⟩ := Option.bind_eq_some_iff.mp hnode
  obtain ⟨last, -, hnode⟩ := Option.bind_eq_some_iff.mp hnode
  obtain ⟨k, m, ⟨⟨c, hc, hopening⟩, ⟨e, he, hclosing⟩⟩, hcloses⟩ :=
    Pair.matches_of_around? h.holds h.plainTrivia hnode
  rw [hopening, hclosing]
  exact h.pairAt hc he hcloses

/-! ## Reports -/

namespace Token
open Text

/-- **The byte `k` of the text `s` is its token `i`, the parenthesis `c`**: it begins there, and no other token
    has a part in it. -/
structure ParenthesisAt (s : String) (ts : List Token) (i k : Nat) (c : Char) : Prop where
  token  : ts[i]? = some (.punctuator (String.singleton c))
  byte   : (bytes s)[k]? = some c.toUInt8
  begins : offset? ts i = some k
  only   : ∀ j, Covers ts j k ↔ j = i

variable {ts : List Token} {i : Nat} {c : Char}

theorem parenthesisAt_start (h : ts[i]? = some (.punctuator (String.singleton c)))
    (hc : isAscii c = true) : ParenthesisAt (source ts) ts i (start ts i) c where
  token := h
  byte := by
    have hdrop := drop_bytes_start h
    have hbytes : bytes (Token.punctuator (String.singleton c)).text = [c.toUInt8] := by
      rw [bytes_eq_encode]
      show encode (String.singleton c).toList = _
      rw [String.toList_singleton, encode_cons, encode_nil, utf8EncodeChar_of_isAscii hc,
        List.append_nil]
    have hget : ((bytes (source ts)).drop (start ts i))[0]? = some c.toUInt8 := by
      rw [hdrop, hbytes]
      rfl
    rwa [List.getElem?_drop, Nat.add_zero] at hget
  begins := offset?_eq_some_iff.mpr ⟨(List.getElem?_eq_some_iff.mp h).1, rfl⟩
  only := by
    have hsize : (Token.punctuator (String.singleton c)).size = c.utf8Size :=
      String.utf8ByteSize_singleton
    exact fun j => covers_start_iff h (hsize ▸ c.utf8Size_pos)

end Token

/-- **What a report says of a node is true of the text**: the two positions are those of the bytes `a` and `b`,
    at which the parentheses of the located pair stand, and these balance. -/
structure PairReport.Describes (r : PairReport) (s : String) (ts : List Token) (d : Document)
    (id : NodeId) : Prop where
  kind       : (d.tree.arena.get? id).map (·.kind) = some r.kind
  applicable : r.applicable = d.tree.arena.takesSpace id
  pair       : ∃ p a b, Pair.locate? d.chain d.tree.arena id = some p ∧
    Token.PairAt ts p.opening p.closing ∧ a < b ∧
    Token.ParenthesisAt s ts p.opening a '(' ∧ Token.ParenthesisAt s ts p.closing b ')' ∧
    r.opening = Text.positionAt s a ∧ r.closing = Text.positionAt s b

namespace Document

variable {d : Document} {ts : List Token} {id : NodeId} {r : PairReport}

/-- A node is reported exactly where its pair is located. -/
theorem isSome_reportNode? (d : Document) (positions : Array Position) (id : NodeId) :
    (d.reportNode? positions id).isSome = (Pair.locate? d.chain d.tree.arena id).isSome := by
  rw [reportNode?, Pair.locate?]
  cases d.tree.arena.get? id with
  | none => rfl
  | some n =>
      simp only [Option.bind_some, Option.bind_eq_bind]
      cases Pair.ofNode? d.chain n <;> rfl

/-- **Every report describes its node.** -/
theorem Of.describes (h : d.Of ts)
    (hr : d.reportNode? (Token.positionsFrom .start d.chain.toList).toArray id = some r) :
    r.Describes (Token.source ts) ts d id := by
  obtain ⟨n, hn, hr⟩ := Option.bind_eq_some_iff.mp hr
  obtain ⟨p, hp, hr⟩ := Option.bind_eq_some_iff.mp hr
  cases hr
  have hpair := h.pairAt_of_locate? hp
  have hlen : p.closing < ts.length := (List.getElem?_eq_some_iff.mp hpair.closing).1
  have hplace : ∀ i, i < ts.length →
      (Token.positionsFrom .start d.chain.toList).toArray.getD i .start =
        Text.positionAt (Token.source ts) (Token.start ts i) := by
    intro i hi
    rw [Array.getD_eq_getD_getElem?, List.getElem?_toArray, h.toList_eq, Token.getElem?_positions hi]
    rfl
  have hopening := Token.parenthesisAt_start (c := '(') hpair.opening (by decide)
  have hclosing := Token.parenthesisAt_start (c := ')') hpair.closing (by decide)
  have hlt : Token.start ts p.opening < Token.start ts p.closing :=
    Nat.lt_of_lt_of_le ((hopening.only _).mpr rfl).2 (Token.start_mono hpair.lt)
  refine ⟨by rw [hn]; rfl, rfl, p, _, _, hp, hpair, hlt, hopening, hclosing, ?_, ?_⟩
  · exact hplace p.opening (Nat.lt_trans hpair.lt hlen)
  · exact hplace p.closing hlen

end Document

/-- What is kept of a list, beside what it is turned into. -/
theorem forall₂_filterMap {α β : Type} {f : α → Option β} {R : α → β → Prop} :
    ∀ {l : List α}, (∀ a ∈ l, ∀ b, f a = some b → R a b) →
      List.Forall₂ R (l.filter fun a => (f a).isSome) (l.filterMap f)
  | [], _ => .nil
  | a :: l, h => by
    have ih := forall₂_filterMap fun x hx => h x (List.mem_cons_of_mem a hx)
    cases hf : f a with
    | none => rwa [List.filter_cons_of_neg (by simp [hf]), List.filterMap_cons_none hf]
    | some b =>
        rw [List.filter_cons_of_pos (by simp [hf]), List.filterMap_cons_some hf]
        exact .cons (h a List.mem_cons_self b hf) ih

/-- **Reported parentheses are where they are said to be, and balance.** For a text that is reported on there
    are the nodes of its tree in pre-order, each once, and the reports are about those of them that have a
    located pair, in this order: every one gives the positions of two bytes of the text that are the
    parentheses of the pair, in no comment and no string, with a depth above zero from the first up to the
    second and of zero there. -/
theorem reportPairs_balanced {s : String} {reports : List PairReport}
    (h : reportPairs s = .ok reports) :
    ∃ ts d order, Token.scan s = .ok ts ∧ Document.read s = .ok d ∧
      d.tree.arena.Preorder [d.tree.root] order ∧ order.Perm (List.range d.tree.arena.size) ∧
      List.Forall₂ (fun id r => PairReport.Describes r s ts d id)
        (order.filter fun id => (Pair.locate? d.chain d.tree.arena id).isSome) reports := by
  unfold reportPairs at h
  cases hread : Document.read s with
  | error p =>
      rw [hread] at h
      cases h
  | ok d =>
      rw [hread] at h
      cases h
      obtain ⟨ts, hof, rfl⟩ := Document.read_eq_ok_iff.mp hread
      obtain ⟨hpreorder, hperm⟩ := hof.sound.listed.preorder_listed
      refine ⟨ts, d, _, hof.scan_eq, rfl, hpreorder, hperm, ?_⟩
      have hreports := forall₂_filterMap (l := d.tree.arena.preorder d.tree.root)
        (R := fun id r => PairReport.Describes r (Token.source ts) ts d id) fun id _ r hr =>
          hof.describes hr
      simp only [Document.isSome_reportNode?] at hreports
      exact hreports

/-- Parentheses in a string and in a comment, a line feed in the comment, and a character of two bytes. -/
theorem reportPairs_balanced_multibyte :
    ∃ ts d order, Token.scan "x = 'é(' + /*)\n*/é.y((b) - a);" = .ok ts ∧
      Document.read "x = 'é(' + /*)\n*/é.y((b) - a);" = .ok d ∧
      d.tree.arena.Preorder [d.tree.root] order ∧ order.Perm (List.range d.tree.arena.size) ∧
      List.Forall₂ (fun id r => PairReport.Describes r "x = 'é(' + /*)\n*/é.y((b) - a);" ts d id)
        (order.filter fun id => (Pair.locate? d.chain d.tree.arena id).isSome)
        [⟨.binaryExpression, ⟨2, 7⟩, ⟨2, 15⟩, true⟩, ⟨.identifier, ⟨2, 8⟩, ⟨2, 10⟩, false⟩] :=
  reportPairs_balanced (by decide +kernel)

end ScriptSpacing
