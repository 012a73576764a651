import ScriptSpacing.Proofs.Document.Wrapped
import ScriptSpacing.Proofs.Syntax.Opening

/-!
# `Proofs.Document.Located` — what a node finds, by the way it begins

The locator knows tokens only, so what it finds for a node follows from where the parenthesis it starts at
is closed. There are two ways to begin. A node that is binary-like, or whose first token is no parenthesis,
starts in front of itself and finds what it is wrapped in, nothing else (`Of.find?_eq_some_iff_wrapped`).
Any other node starts at its own first token. That parenthesis is a statement's own, and is found; it may be
an operand's, and is then found only if a single token follows it, which an update alone allows
(`Of.find?_of_open`).
-/

namespace ScriptSpacing

/-- A pair of parentheses that close each other. -/
def Pair.Matches (code : Code) (p : Pair) : Prop := ∃ k m, p.At code k m ∧ code.Closes k m

/-! ## Which nodes begin how -/

namespace Arena

variable {ar : Arena} {id : NodeId} {n inner : Node}

/-- A node that takes space is read by a rule for an expression or a statement of one. -/
theorem kind_of_takesSpace (hn : ar.get? id = some n) (h : ar.takesSpace id = true) :
    n.kind ≠ .property ∧ n.kind ≠ .variableDeclarator := by
  unfold takesSpace at h
  rw [hn] at h
  constructor <;>
  · intro hkind
    simp [hkind, Policy.ofKind, Node.Kind.isExpressionLike] at h

/-- A statement that takes space does not begin with its expression. -/
theorem first_ne_of_takesSpace (hn : ar.get? id = some n) (h : ar.takesSpace id = true)
    (hkind : n.kind = .expressionStatement) (hinner : n.expression.bind ar.get? = some inner) :
    inner.first ≠ n.first := by
  unfold takesSpace at h
  simp only [hn, hkind, Policy.ofKind, statementTakesSpace, hinner] at h
  intro hfirst
  simp [hfirst] at h

end Arena

namespace Document

variable {d : Document} {ts : List Token} {id : NodeId} {n : Node} {p : Pair} {i j k m : Nat}

/-- **How a node that takes space goes on** behind the parenthesis it begins with. -/
theorem Of.exists_opening (h : d.Of ts) (hn : d.tree.arena.get? id = some n)
    (hspace : d.tree.arena.takesSpace id = true) (hbinary : n.kind.isBinaryLike = false) :
    ∃ i j, n.Spans (Code.ofChain d.chain) i j ∧ ∀ m, (Code.ofChain d.chain).Closes i m →
      n.Opening d.tree.arena (Code.ofChain d.chain) j m :=
  (h.sound.owned hn (Arena.kind_ne_program_of_takesSpace hn hspace)).exists_opening h.proper hbinary
    (Arena.kind_of_takesSpace hn hspace)

/-! ## Starting in front -/

/-- A pair that opens directly in front of a node and closes around its end is what it is wrapped in. -/
theorem Of.wrapped_of_closes (h : d.Of ts) (hs : n.Spans (Code.ofChain d.chain) (k + 1) j)
    (hat : p.At (Code.ofChain d.chain) k m) (hcloses : (Code.ofChain d.chain).Closes k m)
    (hending : m = j ∨ m = j + 1 ∨ m + 1 = j) : n.Wrapped d.chain p ∧ m = j + 1 := by
  -- the brackets of the node nest, so the pair is not closed among them
  have hle := hs.nests.le_of_closes hcloses
  obtain rfl : m = j + 1 := by omega
  obtain ⟨a, ha, hfirst⟩ := hs.first
  obtain ⟨b, hb, hlast⟩ := hs.last
  obtain ⟨c, hc, hopening⟩ := hat.opening
  obtain ⟨e, he, hclosing⟩ := hat.closing
  refine ⟨⟨?_, ?_, ?_, ?_⟩, rfl⟩
  · rw [hfirst, hopening]
    exact (h.holds.prevCode?_eq_some_iff ha hc).mpr rfl
  · rw [hopening, h.holds.test_code hc, ← Code.is_eq_of_at? hc]
    exact hcloses.opener
  · rw [hlast, hclosing]
    exact (h.holds.nextCode?_eq_some_iff hb he).mpr rfl
  · rw [hclosing, h.holds.test_code he, ← Code.is_eq_of_at? he]
    exact hcloses.closer

/-- A pair that is found from in front of a node opens there. -/
theorem Of.succ_eq_of_encloses (h : d.Of ts) (hs : n.Spans (Code.ofChain d.chain) i j)
    (hlead : n.kind.isBinaryLike = true ∨ n.first.any (d.chain.test (·.is "(")) = false)
    (henc : (Code.ofChain d.chain).Encloses n.kind i j k m) : k + 1 = i := by
  rcases henc.place with ⟨hk, -⟩ | ⟨rfl, hbinary⟩
  · exact hk
  · rw [h.first_any hs, henc.closes.opener, hbinary] at hlead
    rcases hlead with hlead | hlead <;> cases hlead

/-- **A node that starts in front of itself finds what it is wrapped in.** -/
theorem Of.find?_eq_some_iff_wrapped (h : d.Of ts) (hn : d.tree.arena.get? id = some n)
    (hspace : d.tree.arena.takesSpace id = true)
    (hlead : n.kind.isBinaryLike = true ∨ n.first.any (d.chain.test (·.is "(")) = false) :
    Pair.find? d.chain d.tree.arena id = some p ↔ n.Wrapped d.chain p := by
  obtain ⟨i, j, hs⟩ := h.exists_spans hn hspace
  constructor
  · intro hfound
    obtain ⟨k, m, hat, henc⟩ := (h.find?_eq_some_iff hn hspace hs).mp hfound
    obtain rfl := h.succ_eq_of_encloses hs hlead henc
    exact (h.wrapped_of_closes hs hat henc.closes henc.ending).1
  · intro hw
    exact (h.find?_eq_some_iff_of_wrapped hn hspace hw).mpr hlead

/-! ## Starting at the first token -/

/-- A node that begins with a parenthesis, not binary-like, can only find that one. -/
theorem Of.find?_eq_some_iff_ending (h : d.Of ts) (hn : d.tree.arena.get? id = some n)
    (hspace : d.tree.arena.takesSpace id = true) (hbinary : n.kind.isBinaryLike = false)
    (hs : n.Spans (Code.ofChain d.chain) i j) (hcloses : (Code.ofChain d.chain).Closes i m) :
    Pair.find? d.chain d.tree.arena id = some p ↔
      p.At (Code.ofChain d.chain) i m ∧ (m = j ∨ m + 1 = j) := by
  have hinside := hcloses.opener
  rw [h.find?_eq_some_iff hn hspace hs]
  constructor
  · rintro ⟨k, m', hat, henc⟩
    rcases henc.place with ⟨-, hor⟩ | ⟨rfl, -⟩
    · rw [hbinary, hinside] at hor
      rcases hor with hor | hor <;> cases hor
    · obtain rfl := henc.closes.unique hcloses
      obtain ⟨m', hlt, hcloses'⟩ := hs.nests.exists_closes (Nat.lt_succ_of_le hs.le) hinside
      obtain rfl := hcloses.unique hcloses'
      have hending := henc.ending
      exact ⟨hat, by omega⟩
  · rintro ⟨hat, hending⟩
    exact ⟨i, m, hat, .inr ⟨rfl, hbinary⟩, hcloses, by omega⟩

/-- **A node that begins with a parenthesis, not binary-like,** finds it if it is a statement, or an
    update whose operator stands directly behind. -/
theorem Of.find?_of_open (h : d.Of ts) (hn : d.tree.arena.get? id = some n)
    (hspace : d.tree.arena.takesSpace id = true) (hbinary : n.kind.isBinaryLike = false)
    (hopen : n.first.any (d.chain.test (·.is "(")) = true) :
    ∃ p, n.first = some p.opening ∧ p.Matches (Code.ofChain d.chain) ∧
      Pair.find? d.chain d.tree.arena id =
        if n.kind = .expressionStatement ∨
            (n.kind = .updateExpression ∧ n.last.bind d.chain.prevCode? = some p.closing)
        then some p else none := by
  obtain ⟨i, j, hs, hopening⟩ := h.exists_opening hn hspace hbinary
  rw [h.first_any hs] at hopen
  obtain ⟨m, hm, hcloses⟩ := hs.nests.exists_closes (Nat.lt_succ_of_le hs.le) hopen
  obtain ⟨a, ha, hfirst⟩ := hs.first
  obtain ⟨b, hb, hlast⟩ := hs.last
  obtain ⟨c, hc⟩ := Code.exists_at? hcloses.inside
  have hat : Pair.At (Code.ofChain d.chain) ⟨a.1, c.1⟩ i m := ⟨⟨a, ha, rfl⟩, ⟨c, hc, rfl⟩⟩
  have hfind : ∀ p, Pair.find? d.chain d.tree.arena id = some p ↔
      p.At (Code.ofChain d.chain) i m ∧ (m = j ∨ m + 1 = j) :=
    fun p => h.find?_eq_some_iff_ending hn hspace hbinary hs hcloses
  have hprev : n.last.bind d.chain.prevCode? = some c.1 ↔ m + 1 = j := by
    rw [hlast]
    exact h.holds.prevCode?_eq_some_iff hb hc
  -- whether the pair is at the end of the node is told by how the node goes on
  have hending : (m = j ∨ m + 1 = j) ↔ n.kind = .expressionStatement ∨
      (n.kind = .updateExpression ∧ n.last.bind d.chain.prevCode? = some c.1) := by
    rw [hprev]
    cases hopening m hcloses with
    | shared hkind hinner hsame =>
        exact absurd hsame (Arena.first_ne_of_takesSpace hn hspace hkind hinner)
    | whole hkind hend =>
        constructor
        · intro _
          exact .inl hkind
        · intro _
          rcases hend with hend | ⟨hend, -⟩
          · exact .inl hend
          · exact .inr hend
    | operand hkind hlt _ _ =>
        rw [hkind]
        constructor
        · intro hend
          exact .inr ⟨rfl, by omega⟩
        · rintro (hstmt | ⟨-, hend⟩)
          · cases hstmt
          · exact .inr hend
    | further hstmt hupdate hlt =>
        constructor
        · intro hend
          omega
        · rintro (hkind | ⟨hkind, -⟩)
          · exact absurd hkind hstmt
          · exact absurd hkind hupdate
  refine ⟨⟨a.1, c.1⟩, hfirst, ⟨i, m, hat, hcloses⟩, ?_⟩
  split
  · next hcond => exact (hfind _).mpr ⟨hat, hending.mpr hcond⟩
  · next hcond =>
      rw [Option.eq_none_iff_forall_ne_some]
      intro p hp
      exact hcond (hending.mp ((hfind p).mp hp).2)

end Document

/-- **What a node finds.** A node of a text that takes space, if it is binary-like or its first token is no
    parenthesis, finds the pair it is wrapped in and no other. If not, the pair that its first token opens
    is found for a statement, and for an update that has it directly in front of its last token; no other
    node finds any. -/
theorem find?_eq_wrapped_or_first {s : String} {d : Document} (h : Document.read s = .ok d)
    {id : NodeId} {n : Node} (hn : d.tree.arena.get? id = some n)
    (hspace : d.tree.arena.takesSpace id = true) :
    (n.kind.isBinaryLike = true ∨ n.first.any (d.chain.test (·.is "(")) = false →
      ∀ p, Pair.find? d.chain d.tree.arena id = some p ↔ n.Wrapped d.chain p) ∧
    (¬(n.kind.isBinaryLike = true ∨ n.first.any (d.chain.test (·.is "(")) = false) →
      ∃ p, n.first = some p.opening ∧ p.Matches (Code.ofChain d.chain) ∧
        Pair.find? d.chain d.tree.arena id =
          if n.kind = .expressionStatement ∨
              (n.kind = .updateExpression ∧ n.last.bind d.chain.prevCode? = some p.closing)
          then some p else none) := by
  obtain ⟨ts, hof, -⟩ := Document.read_eq_ok_iff.mp h
  constructor
  · intro hlead p
    exact hof.find?_eq_some_iff_wrapped hn hspace hlead
  · intro hlead
    simp only [not_or, Bool.not_eq_true, Bool.not_eq_false] at hlead
    exact hof.find?_of_open hn hspace hlead.1 hlead.2

/-- An update that begins with the parentheses of its operand. -/
theorem find?_eq_wrapped_or_first_update :
    ∃ d n p, Document.read "(a)++;" = .ok d ∧ d.tree.arena.get? 1 = some n ∧
      n.first = some p.opening ∧ p.Matches (Code.ofChain d.chain) ∧
      Pair.find? d.chain d.tree.arena 1 =
        if n.kind = .expressionStatement ∨
            (n.kind = .updateExpression ∧ n.last.bind d.chain.prevCode? = some p.closing)
        then some p else none := by
  obtain ⟨d, hread, hnode, hspace, hopen⟩ := Document.exists_read (s := "(a)++;")
    (fun d => d.tree.arena.get? 1 = some ⟨.updateExpression, some 0, some 3, none, none, [0]⟩ ∧
      d.tree.arena.takesSpace 1 = true ∧ d.chain.test (·.is "(") 0 = true)
    (by decide +kernel)
  obtain ⟨p, hp⟩ := (find?_eq_wrapped_or_first hread hnode hspace).2 (by
    rintro (hbinary | hclosed)
    · cases hbinary
    · rw [Option.any_some, hopen] at hclosed
      cases hclosed)
  exact ⟨d, _, p, hread, hnode, hp⟩

end ScriptSpacing
