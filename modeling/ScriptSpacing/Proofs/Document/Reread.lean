import ScriptSpacing.Document
import ScriptSpacing.Proofs.Spacing.Alike
import ScriptSpacing.Proofs.Syntax.AlikeGrammar
import ScriptSpacing.Proofs.Syntax.Spans

/-!
# `Proofs.Document.Reread` — a document, spaced and read again

`Document.Of d ts` says that `d` is what reading makes of the tokens `ts`. Three things follow that the
formatter relies on and checks nowhere: the chain holds the tokens, the code is proper, and the tree is a
reading of it. With them every pair that is found stands at two positions with a token between
(`Of.found`), so the directives of a pass are all on the inner sides of parentheses.

`Respaced` collects what a pass comes to when its text is read again: the tokens are those of the edited
chain, the solid ones are the same, the gaps are overwritten by the marks of the pass, the tree is alike,
and a second pass would make the same marks (`Of.respaced`).
-/

namespace ScriptSpacing

/-! ## Reading -/

namespace Document

/-- **The document of a list of tokens.** -/
structure Of (d : Document) (ts : List Token) : Prop where
  cut   : Token.Cut ts
  chain : d.chain = Chain.ofList ts
  tree  : Tree.ofChain d.chain = .ok d.tree

/-- **A text is read exactly when it is cut and its code parsed.** -/
theorem read_eq_ok_iff {s : String} {d : Document} :
    read s = .ok d ↔ ∃ ts, d.Of ts ∧ Token.source ts = s := by
  unfold read
  cases hscan : Token.scan s with
  | error e =>
      constructor
      · rintro ⟨⟩
      · rintro ⟨ts, h, hsource⟩
        have := Token.scan_eq_ok_iff.mpr ⟨h.cut, hsource⟩
        rw [hscan] at this
        cases this
  | ok ts =>
      obtain ⟨hcut, hsource⟩ := Token.scan_eq_ok_iff.mp hscan
      have hunique : ∀ us, Token.Cut us → Token.source us = s → us = ts := by
        intro us hus hs
        have := Token.scan_eq_ok_iff.mpr ⟨hus, hs⟩
        rw [hscan] at this
        exact (Except.ok.inj this).symm
      dsimp only
      constructor
      · intro h
        split at h
        · cases h
        · next tree htree =>
            cases h
            exact ⟨ts, ⟨hcut, rfl, htree⟩, hsource⟩
      · rintro ⟨us, h, hs⟩
        obtain rfl := hunique us h.cut hs
        have htree := h.tree
        rw [h.chain] at htree
        obtain ⟨chain, tree⟩ := d
        obtain rfl : chain = Chain.ofList us := h.chain
        rw [htree]

/-- What is decided of a document once it is read. -/
theorem exists_read {s : String} (P : Document → Prop) [DecidablePred P]
    (h : (read s).toOption.any (fun d => decide (P d)) = true) : ∃ d, read s = .ok d ∧ P d := by
  cases hread : read s with
  | error p =>
      rw [hread] at h
      cases h
  | ok d =>
      rw [hread] at h
      exact ⟨d, rfl, of_decide_eq_true h⟩

/-- The directives of a pass over a document. -/
def directives (d : Document) : List Directive :=
  (d.chain.pairsOf d.tree.arena (d.tree.arena.preorder d.tree.root)).flatMap Pair.directives

/-- The chain of a pass. -/
theorem respace_fst (d : Document) (preset : Preset) :
    (d.respace preset).1 = (Directive.applyAll d.directives preset d.chain).chain := rfl

/-- The gaps that a pass limits, in order. -/
def marks (d : Document) (ts : List Token) : List Mark :=
  d.directives.filterMap (Directive.mark? (Linked.solids (Token.numbered ts)))

end Document

/-! ## What holds of every document -/

namespace Document.Of

variable {d : Document} {ts : List Token}

theorem holds (h : d.Of ts) : Chain.Holds d.chain (Token.numbered ts) :=
  h.chain ▸ Chain.holds_ofList ts

theorem toList_eq (h : d.Of ts) : d.chain.toList = ts := by
  rw [h.holds.toList_eq, Token.map_snd_numbered]

/-- Entries of the chain are tokens of the text. -/
theorem mem_of_numbered {e : Linked} (he : e ∈ Token.numbered ts) : e.2 ∈ ts := by
  have := List.mem_map_of_mem (f := fun e : Linked => e.2) he
  rwa [Token.map_snd_numbered] at this

theorem plainTrivia (h : d.Of ts) : Chain.PlainTrivia (Token.numbered ts) := by
  apply Chain.plainTrivia_of_cut
  rw [Token.map_snd_numbered]
  exact h.cut

theorem proper (h : d.Of ts) : (Code.ofChain d.chain).Proper := by
  intro i e he hmem
  rw [h.holds.at?_eq] at he
  have hentry : e ∈ Token.numbered ts := List.mem_of_mem_filter (List.mem_of_getElem? he)
  exact h.cut.kind_of_bracket (mem_of_numbered hentry) hmem

theorem sound (h : d.Of ts) : d.tree.Sound (Code.ofChain d.chain) := Tree.sound_ofCode h.tree

/-- **A node that takes space has a span.** -/
theorem exists_spans (h : d.Of ts) {id : NodeId} {n : Node} (hn : d.tree.arena.get? id = some n)
    (hspace : d.tree.arena.takesSpace id = true) : ∃ i j, n.Spans (Code.ofChain d.chain) i j :=
  h.sound.exists_spans h.proper hn (Arena.kind_ne_program_of_takesSpace hn hspace)

end Document.Of

/-! ## Found pairs -/

/-- The parentheses of a pair are the code tokens at two positions. -/
structure Pair.At (code : Code) (p : Pair) (k m : Nat) : Prop where
  opening : ∃ c, code.at? k = some c ∧ p.opening = c.1
  closing : ∃ e, code.at? m = some e ∧ p.closing = e.1

/-- **Which pair is found** for a node with a span, by position. -/
theorem Document.Of.find?_eq_some_iff {d : Document} {ts : List Token} (h : d.Of ts) {id : NodeId}
    {n : Node} (hn : d.tree.arena.get? id = some n) (hspace : d.tree.arena.takesSpace id = true)
    {i j : Nat} (hs : n.Spans (Code.ofChain d.chain) i j) {p : Pair} :
    Pair.find? d.chain d.tree.arena id = some p ↔
      ∃ k m, p.At (Code.ofChain d.chain) k m ∧
        (Code.ofChain d.chain).Encloses n.kind i j k m := by
  obtain ⟨a, ha, hfirst⟩ := hs.first
  obtain ⟨b, hb, hlast⟩ := hs.last
  have hnode : Pair.find? d.chain d.tree.arena id = Pair.around? d.chain n.kind a.1 b.1 := by
    rw [Pair.find?, if_pos hspace, Pair.locate?, hn, Option.bind_some, Pair.ofNode?, hfirst, hlast]
    rfl
  rw [hnode, Pair.around?_eq_some_iff h.holds h.plainTrivia ha hb]
  constructor
  · rintro ⟨k, m, c, e, hc, he, rfl, hencloses⟩
    exact ⟨k, m, ⟨⟨c, hc, rfl⟩, ⟨e, he, rfl⟩⟩, hencloses⟩
  · rintro ⟨k, m, ⟨⟨c, hc, hopening⟩, ⟨e, he, hclosing⟩⟩, hencloses⟩
    refine ⟨k, m, c, e, hc, he, ?_, hencloses⟩
    rw [← hopening, ← hclosing]

/-- A pair whose parentheses close each other, with a code token between them. -/
structure Pair.Stands (code : Code) (p : Pair) (k m : Nat) : Prop where
  opening : ∃ c, code.at? k = some c ∧ p.opening = c.1
  closing : ∃ e, code.at? m = some e ∧ p.closing = e.1
  closes  : code.Closes k m
  apart   : k + 2 ≤ m

/-- A pair around a node is not empty. -/
theorem Code.Encloses.add_two_le {code : Code} {n : Node} {i j k m : Nat}
    (h : code.Encloses n.kind i j k m) (hs : n.Spans code i j) : k + 2 ≤ m := by
  have hlt := h.closes.lt
  have hclose := h.closes.closer
  rcases Nat.eq_or_lt_of_le hlt with rfl | hlt
  -- an empty pair is not around a node: one would begin with a closer or end behind it
  · exfalso
    rcases h.place with ⟨rfl, -⟩ | ⟨rfl, -⟩
    · rw [hs.front] at hclose
      cases hclose
    · have := hs.empty h.closes.opener hclose
      rcases h.ending with hj | hj | hj <;> omega
  · exact hlt

/-- **Where a found pair stands.** -/
theorem Document.Of.found {d : Document} {ts : List Token} (h : d.Of ts) {id : NodeId} {p : Pair}
    (hp : Pair.find? d.chain d.tree.arena id = some p) :
    ∃ k m, p.Stands (Code.ofChain d.chain) k m := by
  obtain ⟨hspace, hlocate⟩ := Pair.find?_eq_some_iff.mp hp
  obtain ⟨n, hn, -⟩ := Option.bind_eq_some_iff.mp hlocate
  obtain ⟨i, j, hs⟩ := h.exists_spans hn hspace
  obtain ⟨k, m, hat, hencloses⟩ := (h.find?_eq_some_iff hn hspace hs).mp hp
  exact ⟨k, m, hat.opening, hat.closing, hencloses.closes, hencloses.add_two_le hs⟩

/-- **The directives of a pass** are the two of each pair that is found. -/
theorem Document.mem_directives_iff {d : Document} {dir : Directive} :
    dir ∈ d.directives ↔ ∃ id ∈ d.tree.arena.preorder d.tree.root, ∃ p,
      Pair.find? d.chain d.tree.arena id = some p ∧
      (dir = ⟨p.opening, .after, .openingParenthesis⟩ ∨
        dir = ⟨p.closing, .before, .closingParenthesis⟩) := by
  simp only [directives, List.mem_flatMap, Chain.pairsOf, List.mem_filterMap, Pair.directives,
    List.mem_cons, List.not_mem_nil, or_false]
  constructor
  · rintro ⟨p, ⟨id, hid, hp⟩, hdir⟩
    exact ⟨id, hid, p, hp, hdir⟩
  · rintro ⟨id, hid, p, hp, hdir⟩
    exact ⟨p, ⟨id, hid, hp⟩, hdir⟩

/-- **Directives are on the inner sides of parentheses.** -/
theorem Document.Of.inward {d : Document} {ts : List Token} (h : d.Of ts) :
    ∀ dir ∈ d.directives, dir.Inward (Linked.solids (Token.numbered ts)) := by
  intro dir hdir
  obtain ⟨id, -, p, hp, hside⟩ := Document.mem_directives_iff.mp hdir
  obtain ⟨k, m, hstands⟩ := h.found hp
  have hmem : ∀ {i e}, (Code.ofChain d.chain).at? i = some e →
      e ∈ Linked.solids (Token.numbered ts) := by
    intro i e he
    rw [h.holds.at?_eq] at he
    obtain ⟨hentry, hcode⟩ := List.mem_filter.mp (List.mem_of_getElem? he)
    exact List.mem_filter.mpr ⟨hentry, Token.isSolid_of_isCode hcode⟩
  rcases hside with rfl | rfl
  · obtain ⟨c, hc, hopening⟩ := hstands.opening
    have htext := hstands.closes.opener
    rw [Code.is_eq_of_at? hc, Token.is_eq_true] at htext
    exact ⟨c, hmem hc, hopening.symm, .inl ⟨rfl, htext⟩⟩
  · obtain ⟨e, he, hclosing⟩ := hstands.closing
    have htext := hstands.closes.closer
    rw [Code.is_eq_of_at? he, Token.is_eq_true] at htext
    exact ⟨e, hmem he, hclosing.symm, .inr ⟨rfl, htext⟩⟩

/-! ## Reading again -/

/-- Chains with the same solid tokens have alike codes. -/
theorem Chain.Holds.code_alike {ch ch' : Chain} {es es' : List Linked} (h : Chain.Holds ch es)
    (h' : Chain.Holds ch' es')
    (hsolids : Token.solids (es'.map (·.2)) = Token.solids (es.map (·.2))) :
    (Code.ofChain ch).Alike (Code.ofChain ch') := by
  have hcode : ∀ es : List Linked, (es.filter (·.2.isCode)).map (·.2) =
      (Token.solids (es.map (·.2))).filter Token.isCode := by
    intro es
    rw [Token.solids, List.filter_filter, List.filter_map]
    congr 1
    apply List.filter_congr
    intro e _
    cases hcode : e.2.isCode with
    | false => simp [hcode]
    | true => simp [hcode, Token.isSolid_of_isCode hcode]
  have htokens : (es'.filter (·.2.isCode)).map (·.2) = (es.filter (·.2.isCode)).map (·.2) := by
    rw [hcode, hcode, hsolids]
  constructor
  · intro i
    rw [h.at?_eq, h'.at?_eq, ← List.getElem?_map, ← List.getElem?_map, htokens]
  · simp only [Code.ofChain, Code.ofEntries, h.entries_eq, h'.entries_eq]
    rw [htokens]

/-- **What a pass comes to when its text is read again**: `us` are the tokens of the text, `d'` is its
    document. -/
structure Document.Respaced (d : Document) (ts : List Token) (preset : Preset) (us : List Token)
    (d' : Document) : Prop where
  reread : d'.Of us
  toList : (d.respace preset).1.toList = us
  source : (d.respace preset).1.source = Token.source us
  solids : Token.solids us = Token.solids ts
  gaps   : Token.gaps us = Mark.overwrite preset (d.marks ts) (Token.gaps ts)
  alike  : d.tree.Alike (Code.ofChain d.chain) (Code.ofChain d'.chain) d'.tree
  marks  : d'.marks us = d.marks ts

/-- The same pairs make the same marks. -/
theorem Document.marks_eq {d d' : Document} {ts us : List Token} (h : d.Of ts) (h' : d'.Of us)
    (hsolids : Token.solids us = Token.solids ts)
    (hcode : (Code.ofChain d.chain).Alike (Code.ofChain d'.chain))
    (htree : d.tree.Alike (Code.ofChain d.chain) (Code.ofChain d'.chain) d'.tree) :
    d'.marks us = d.marks ts := by
  have hpairs := Chain.pairsOf_forall₂ h.holds h'.holds h.plainTrivia h'.plainTrivia hcode
    htree.arena (d.tree.arena.preorder d.tree.root)
  rw [marks, marks, directives, directives, ← htree.root, ← htree.arena.preorder_eq]
  have htokens : (Linked.solids (Token.numbered ts)).map (·.2) =
      (Linked.solids (Token.numbered us)).map (·.2) := by
    rw [Linked.map_snd_solids, Linked.map_snd_solids, Token.map_snd_numbered,
      Token.map_snd_numbered, hsolids]
  have hfilter : ∀ vs : List Token, (Linked.solids (Token.numbered vs)).filter (·.2.isCode) =
      (Token.numbered vs).filter (·.2.isCode) := by
    intro vs
    rw [Linked.solids, List.filter_filter]
    apply List.filter_congr
    intro e _
    cases hcode : e.2.isCode with
    | false => rfl
    | true => simp [Token.isSolid_of_isCode hcode]
  have hidx : ∀ {a b}, (Code.ofChain d.chain).SamePlace (Code.ofChain d'.chain) a b →
      (Linked.solids (Token.numbered ts)).findIdx? (·.1 == a) =
        (Linked.solids (Token.numbered us)).findIdx? (·.1 == b) := by
    rintro a b ⟨i, e, e', he, he', rfl, rfl⟩
    rw [h.holds.at?_eq, ← hfilter] at he
    rw [h'.holds.at?_eq, ← hfilter] at he'
    exact Linked.findIdx?_same htokens (Linked.nodup_solids h.holds.nodup)
      (Linked.nodup_solids h'.holds.nodup) he he'
  -- pair by pair: the two directives of each have the same gap on both sides
  revert hpairs
  generalize d.chain.pairsOf d.tree.arena (d.tree.arena.preorder d.tree.root) = ps,
    d'.chain.pairsOf d'.tree.arena (d.tree.arena.preorder d.tree.root) = ps'
  intro hpairs
  induction hpairs with
  | nil => rfl
  | cons hsame _ ih =>
      simp only [List.flatMap_cons, List.filterMap_append, ih]
      congr 1
      have hmark : ∀ {a b}, (Code.ofChain d.chain).SamePlace (Code.ofChain d'.chain) a b →
          ∀ side rule, Directive.mark? (Linked.solids (Token.numbered us)) ⟨b, side, rule⟩ =
            Directive.mark? (Linked.solids (Token.numbered ts)) ⟨a, side, rule⟩ :=
        fun h side rule => (Directive.mark?_same htokens (hidx h) side rule).symm
      simp only [Pair.directives, List.filterMap_cons, List.filterMap_nil, hmark hsame.opening,
        hmark hsame.closing]

/-- **A spaced document can be read again**, and what it is read as is spaced alike. -/
theorem Document.Of.respaced {d : Document} {ts : List Token} (h : d.Of ts) (preset : Preset) :
    ∃ us d', d.Respaced ts preset us d' := by
  have hcut : Token.Cut ((Token.numbered ts).map (·.2)) := by
    rw [Token.map_snd_numbered]
    exact h.cut
  obtain ⟨es, hes, hspaced⟩ := Directive.applyAll_spec preset h.holds hcut h.inward
  rw [← Document.respace_fst] at hes
  -- the tokens of the edited chain are those of its text, since they are cut as they are
  obtain ⟨us, hus⟩ : ∃ us, us = es.map (·.2) := ⟨_, rfl⟩
  have hsolids : Token.solids us = Token.solids ts := by
    rw [hus, ← Linked.map_snd_solids, hspaced.solids, Linked.map_snd_solids,
      Token.map_snd_numbered]
  obtain ⟨ch, hch⟩ : ∃ ch, ch = Chain.ofList us := ⟨_, rfl⟩
  have hcode : (Code.ofChain d.chain).Alike (Code.ofChain ch) := by
    rw [hch]
    apply h.holds.code_alike (Chain.holds_ofList us)
    rw [Token.map_snd_numbered, Token.map_snd_numbered, hsolids]
  obtain ⟨tree, htree, halike⟩ := Tree.ofCode_alike hcode h.tree
  have hof : Document.Of ⟨ch, tree⟩ us := ⟨hus ▸ hspaced.cut, hch, htree⟩
  refine ⟨us, ⟨ch, tree⟩, hof, hes.toList_eq.trans hus.symm, hus ▸ hes.source_eq, hsolids, ?_,
    halike, Document.marks_eq h hof hsolids hcode halike⟩
  rw [hus, hspaced.gaps, Token.map_snd_numbered, marks]

end ScriptSpacing
