import ScriptSpacing.Proofs.Document.Reread

/-!
# `Proofs.Document.Wrapped` — which nodes find the parentheses they are wrapped in

A node is wrapped in a pair when the code tokens directly around it are its parentheses. They close each
other, since what was read as the node nests its brackets. Whether they are found depends on where the search
begins: in front of a binary-like node and of one that does not begin with a parenthesis, but at the first
token of any other node, since that may be a parenthesis of its own. So the pair is found in the first two
cases and in no others (`Of.find?_eq_some_iff_of_wrapped`).
-/

namespace ScriptSpacing

/-- **A node wrapped in a pair**: the code tokens directly in front and behind are the parentheses `p`. -/
structure Node.Wrapped (ch : Chain) (n : Node) (p : Pair) : Prop where
  front   : n.first.bind ch.prevCode? = some p.opening
  opening : ch.test (·.is "(") p.opening = true
  behind  : n.last.bind ch.nextCode? = some p.closing
  closing : ch.test (·.is ")") p.closing = true

instance (ch : Chain) (n : Node) (p : Pair) : Decidable (n.Wrapped ch p) :=
  decidable_of_iff (n.first.bind ch.prevCode? = some p.opening ∧ ch.test (·.is "(") p.opening = true ∧
      n.last.bind ch.nextCode? = some p.closing ∧ ch.test (·.is ")") p.closing = true)
    ⟨fun ⟨h₁, h₂, h₃, h₄⟩ => ⟨h₁, h₂, h₃, h₄⟩, fun ⟨h₁, h₂, h₃, h₄⟩ => ⟨h₁, h₂, h₃, h₄⟩⟩

namespace Document

variable {d : Document} {ts : List Token} {id : NodeId} {n : Node} {p : Pair} {i j : Nat}

/-- The parentheses around a wrapped node stand at the positions around its span, and close each other. -/
theorem Of.stands_of_wrapped (h : d.Of ts) (hs : n.Spans (Code.ofChain d.chain) i j)
    (hw : n.Wrapped d.chain p) :
    ∃ k c e, k + 1 = i ∧ (Code.ofChain d.chain).at? k = some c ∧ p.opening = c.1 ∧
      (Code.ofChain d.chain).at? (j + 1) = some e ∧ p.closing = e.1 ∧
      (Code.ofChain d.chain).Closes k (j + 1) := by
  obtain ⟨a, ha, hfirst⟩ := hs.first
  obtain ⟨b, hb, hlast⟩ := hs.last
  have hfront := hw.front
  have hbehind := hw.behind
  rw [hfirst, Option.bind_some, h.holds.prevCode?_eq ha] at hfront
  rw [hlast, Option.bind_some, h.holds.nextCode?_eq hb] at hbehind
  split at hfront
  · cases hfront
  · next hi =>
      obtain ⟨c, hc, hopening⟩ := Option.map_eq_some_iff.mp hfront
      obtain ⟨e, he, hclosing⟩ := Option.map_eq_some_iff.mp hbehind
      have hk : i - 1 + 1 = i := by omega
      have hopen := hw.opening
      have hclose := hw.closing
      rw [← hopening, h.holds.test_code hc, ← Code.is_eq_of_at? hc] at hopen
      rw [← hclosing, h.holds.test_code he, ← Code.is_eq_of_at? he] at hclose
      exact ⟨i - 1, c, e, hk, hc, hopening.symm, he, hclosing.symm,
        Grammar.closes_of_nests hopen (hk.symm ▸ hs.nests) hclose⟩

/-- The text of the first token of a span is that of the code token there. -/
theorem Of.first_any (h : d.Of ts) (hs : n.Spans (Code.ofChain d.chain) i j) (s : String) :
    n.first.any (d.chain.test (·.is s)) = (Code.ofChain d.chain).is i s := by
  obtain ⟨a, ha, hfirst⟩ := hs.first
  rw [hfirst, Option.any_some, h.holds.test_code ha, Code.is_eq_of_at? ha]

/-- **A wrapped node finds its parentheses** exactly when it is binary-like or does not begin with one. -/
theorem Of.find?_eq_some_iff_of_wrapped (h : d.Of ts) (hn : d.tree.arena.get? id = some n)
    (hspace : d.tree.arena.takesSpace id = true) (hw : n.Wrapped d.chain p) :
    Pair.find? d.chain d.tree.arena id = some p ↔
      n.kind.isBinaryLike = true ∨ n.first.any (d.chain.test (·.is "(")) = false := by
  obtain ⟨i, j, hs⟩ := h.exists_spans hn hspace
  obtain ⟨k, c, e, rfl, hc, hopening, he, hclosing, hcloses⟩ := h.stands_of_wrapped hs hw
  rw [h.find?_eq_some_iff hn hspace hs, h.first_any hs]
  constructor
  · rintro ⟨k', m', ⟨⟨c', hc', hopening'⟩, -⟩, hencloses⟩
    obtain rfl := (h.holds.at?_inj hc' hc).mp (hopening'.symm.trans hopening)
    rcases hencloses.place with ⟨-, hor⟩ | ⟨hk, -⟩
    · exact hor
    · omega
  · intro hor
    exact ⟨k, j + 1, ⟨⟨c, hc, hopening⟩, ⟨e, he, hclosing⟩⟩, .inl ⟨rfl, hor⟩, hcloses, .inr (.inl rfl)⟩

end Document

/-- **Which wrapped nodes find their parentheses.** A node of a text, if it takes space and the code tokens
    directly around it are parentheses, finds exactly these when it is binary-like or its own first token is
    no parenthesis, and only then. -/
theorem find?_wrapped_iff {s : String} {d : Document} (h : Document.read s = .ok d) {id : NodeId}
    {n : Node} (hn : d.tree.arena.get? id = some n) (hspace : d.tree.arena.takesSpace id = true)
    {p : Pair} (hw : n.Wrapped d.chain p) :
    Pair.find? d.chain d.tree.arena id = some p ↔
      n.kind.isBinaryLike = true ∨ n.first.any (d.chain.test (·.is "(")) = false := by
  obtain ⟨ts, hof, -⟩ := Document.read_eq_ok_iff.mp h
  exact hof.find?_eq_some_iff_of_wrapped hn hspace hw

/-- A sign in front of a parenthesized operand. -/
theorem find?_wrapped_iff_unary :
    ∃ d n, Document.read "x = (-(a));" = .ok d ∧ d.tree.arena.get? 2 = some n ∧
      (Pair.find? d.chain d.tree.arena 2 = some ⟨4, 9⟩ ↔
        n.kind.isBinaryLike = true ∨ n.first.any (d.chain.test (·.is "(")) = false) := by
  obtain ⟨d, hread, hnode, hspace, hw⟩ := Document.exists_read (s := "x = (-(a));")
    (fun d => d.tree.arena.get? 2 = some ⟨.unaryExpression, some 5, some 8, none, none, [1]⟩ ∧
      d.tree.arena.takesSpace 2 = true ∧
      Node.Wrapped d.chain ⟨.unaryExpression, some 5, some 8, none, none, [1]⟩ ⟨4, 9⟩)
    (by decide +kernel)
  exact ⟨d, _, hread, hnode, find?_wrapped_iff hread hnode hspace hw⟩

/-- **A member of a parenthesized object does not find its parentheses.** -/
theorem find?_wrapped_member_eq_none :
    ∃ d n, Document.read "x = ((a).b);" = .ok d ∧ d.tree.arena.get? 3 = some n ∧
      d.tree.arena.takesSpace 3 = true ∧ n.Wrapped d.chain ⟨4, 10⟩ ∧
      Pair.find? d.chain d.tree.arena 3 = none := by
  obtain ⟨d, hread, hnode, hspace, hw, hnone⟩ := Document.exists_read (s := "x = ((a).b);")
    (fun d => d.tree.arena.get? 3 = some ⟨.memberExpression, some 5, some 9, none, none, [1, 2]⟩ ∧
      d.tree.arena.takesSpace 3 = true ∧
      Node.Wrapped d.chain ⟨.memberExpression, some 5, some 9, none, none, [1, 2]⟩ ⟨4, 10⟩ ∧
      Pair.find? d.chain d.tree.arena 3 = none)
    (by decide +kernel)
  exact ⟨d, _, hread, hnode, hspace, hw, hnone⟩

end ScriptSpacing
