import ScriptSpacing.Proofs.Document.Embraced
import ScriptSpacing.Proofs.Syntax.Yield

/-!
# `Proofs.Document.Placed` — where the nodes of a document stand

The span of a node is told by the handles of its first and last token; `Node.span?` looks up at which code
tokens these are. What a document is read as puts its nodes in order (`Node.Placed`): a span begins and ends
with linked code tokens, the brackets in it are balanced, and the children of the node stand in it one behind
the other. Every node of a document is placed so, but for the program of a text without code, which has no
span and no children (`placed_or_no_code`).
-/

namespace ScriptSpacing

/-! ## Balanced tokens -/

/-- **The brackets of a list of tokens are balanced**: each closer is the one awaited last, and none is
    awaited at the end. -/
def Token.Balanced (ts : List Token) : Prop :=
  ts.foldlM (fun awaited t => Grammar.follow awaited t.text) [] = some []

instance (ts : List Token) : Decidable (Token.Balanced ts) :=
  inferInstanceAs (Decidable (_ = _))

/-- Following the brackets between two positions is following those of the tokens there. -/
theorem Grammar.Nests.foldlM_slice {code : Code} {p q : Nat} {σ τ : List String}
    (h : Nests code p σ q τ) :
    ((code.slice p q).map (·.2)).foldlM (fun awaited t => follow awaited t.text) σ = some τ := by
  induction h with
  | refl p σ =>
      rw [Code.slice_self]
      rfl
  | step hat hfollow hrest ih =>
      rw [Code.slice_cons hat hrest.le, List.map_cons, List.foldlM_cons, hfollow]
      exact ih

/-! ## Spans by position -/

/-- The positions of the first and the last code token of a node. -/
def Node.span? (code : Code) (n : Node) : Option (Nat × Nat) :=
  (n.first.bind code.position?).bind fun i => (n.last.bind code.position?).map fun j => (i, j)

/-- The positions of the first and the last code token of the node with a handle. -/
def Arena.span? (ar : Arena) (code : Code) (id : NodeId) : Option (Nat × Nat) :=
  (ar.get? id).bind (·.span? code)

theorem Chain.Holds.span?_eq {ch : Chain} {es : List Linked} (h : Chain.Holds ch es) {n : Node}
    {i j : Nat} {a b : Linked} (ha : (Code.ofChain ch).at? i = some a) (hfirst : n.first = some a.1)
    (hb : (Code.ofChain ch).at? j = some b) (hlast : n.last = some b.1) :
    n.span? (Code.ofChain ch) = some (i, j) := by
  rw [Node.span?, hfirst, hlast, Option.bind_some, Option.bind_some, h.position?_eq ha,
    h.position?_eq hb]
  rfl

/-- **A node in its place**: it runs from the code token at `i` to the one at `j`, both linked; its children
    stand between these one behind the other; and its brackets are balanced. -/
structure Node.Placed (d : Document) (n : Node) (i j : Nat) : Prop where
  span     : n.span? (Code.ofChain d.chain) = some (i, j)
  le       : i ≤ j
  linked   : ∀ x, n.first = some x ∨ n.last = some x →
    d.chain.contains x = true ∧ d.chain.test Token.isCode x = true
  inside   : ∀ c ∈ n.children, ∃ k m, d.tree.arena.span? (Code.ofChain d.chain) c = some (k, m) ∧
    i ≤ k ∧ k ≤ m ∧ m ≤ j
  apart    : n.children.Pairwise fun a b => ∃ k m k' m',
    d.tree.arena.span? (Code.ofChain d.chain) a = some (k, m) ∧
    d.tree.arena.span? (Code.ofChain d.chain) b = some (k', m') ∧ m < k'
  balanced : Token.Balanced (((Code.ofChain d.chain).slice i (j + 1)).map (·.2))

/-! ## Nodes one behind the other -/

namespace Grammar

/-- **The nodes `ids` stand one behind the other** between the positions `p` and `q`. -/
inductive Row (ar : Arena) (code : Code) : Nat → List NodeId → Nat → Prop where
  | nil {p q : Nat} : p ≤ q → Row ar code p [] q
  | cons {p q i j : Nat} {id : NodeId} {ids : List NodeId} {n : Node} : p ≤ i →
      ar.get? id = some n → n.Spans code i j → Row ar code (j + 1) ids q →
      Row ar code p (id :: ids) q

variable {ar : Arena} {code : Code} {ps : List Symbol} {id : NodeId} {ids : List NodeId}
  {p p' q : Nat}

theorem Row.mono (h : Row ar code p ids q) (hle : p' ≤ p) : Row ar code p' ids q := by
  cases h with
  | nil hq => exact .nil (Nat.le_trans hle hq)
  | cons hi hnode hspans hrest => exact .cons (Nat.le_trans hle hi) hnode hspans hrest

theorem Row.le (h : Row ar code p ids q) : p ≤ q := by
  induction h with
  | nil hq => exact hq
  | cons hi _ hspans _ ih =>
      have := hspans.le
      omega

/-- **What is read stands in a row.** -/
theorem Reads.row (hproper : code.Proper) (h : Reads ar code ps p ids q) : Row ar code p ids q := by
  induction h with
  | nil p => exact .nil (Nat.le_refl p)
  | token _ _ _ ih => exact ih.mono (Nat.le_succ _)
  | @node g kind body ps id children ids p r q hrule hbody hnode hrest _ ih =>
      have hlen := List.length_pos_iff.mpr hrule.ne_nil
      have hlt := hbody.add_length_le
      obtain ⟨j, rfl⟩ : ∃ j, r = j + 1 := ⟨r - 1, by omega⟩
      exact .cons (Nat.le_refl p) hnode (hrule.spans hproper hbody) ih
  | wrap _ _ _ _ _ ihinner ih =>
      cases ihinner with
      | cons hi hnode hspans hend =>
          cases hend with
          | nil hj => exact .cons (Nat.le_of_succ_le hi) hnode hspans (ih.mono (Nat.le_succ_of_le hj))
  | lift _ _ ih => exact ih

/-- No symbols, no parts. -/
theorem Reads.ids_eq_nil (h : Reads ar code [] p ids q) : ids = [] := by
  cases h
  rfl

/-- Every node of a row has its span between the ends. -/
theorem Row.exists_span (h : Row ar code p ids q) (hid : id ∈ ids) :
    ∃ n k m, ar.get? id = some n ∧ n.Spans code k m ∧ p ≤ k ∧ k ≤ m ∧ m < q := by
  induction h with
  | nil => cases hid
  | @cons p q i j id' ids n hi hnode hspans hrest ih =>
      have hle := hspans.le
      rcases List.mem_cons.mp hid with rfl | hmem
      · exact ⟨n, i, j, hnode, hspans, hi, hle, hrest.le⟩
      · obtain ⟨n', k, m, hn', hspans', hk, hm, hq⟩ := ih hmem
        exact ⟨n', k, m, hn', hspans', by omega, hm, hq⟩

end Grammar

namespace Document
open Grammar

variable {d : Document} {ts : List Token} {id : NodeId} {n : Node} {i j p q : Nat}

/-! ## Nodes of a document -/

theorem Of.span?_of_spans (h : d.Of ts) (hn : d.tree.arena.get? id = some n)
    (hs : n.Spans (Code.ofChain d.chain) i j) :
    d.tree.arena.span? (Code.ofChain d.chain) id = some (i, j) := by
  obtain ⟨a, ha, hfirst⟩ := hs.first
  obtain ⟨b, hb, hlast⟩ := hs.last
  rw [Arena.span?, hn, Option.bind_some]
  exact h.holds.span?_eq ha hfirst hb hlast

/-- The spans of a row are apart, in order. -/
theorem Of.row_pairwise (h : d.Of ts) {ids : List NodeId}
    (hrow : Row d.tree.arena (Code.ofChain d.chain) p ids q) :
    ids.Pairwise fun a b => ∃ k m k' m',
      d.tree.arena.span? (Code.ofChain d.chain) a = some (k, m) ∧
      d.tree.arena.span? (Code.ofChain d.chain) b = some (k', m') ∧ m < k' := by
  induction hrow with
  | nil => exact .nil
  | @cons p q i j id ids n _ hnode hspans hrest ih =>
      refine .cons ?_ ih
      intro b hb
      obtain ⟨n', k, m, hn', hspans', hk, -, -⟩ := hrest.exists_span hb
      exact ⟨i, j, k, m, h.span?_of_spans hnode hspans, h.span?_of_spans hn' hspans', hk⟩

/-- Code tokens of a document are linked. -/
theorem Of.linked_of_at? (h : d.Of ts) {e : Linked} (he : (Code.ofChain d.chain).at? i = some e) :
    d.chain.contains e.1 = true ∧ d.chain.test Token.isCode e.1 = true := by
  obtain ⟨A, B, hsplit, hcode, -⟩ := h.holds.exists_split he
  have hmem : e ∈ Token.numbered ts := by
    rw [hsplit]
    simp
  refine ⟨h.holds.contains hmem, ?_⟩
  rw [h.holds.test_code he]
  exact hcode

/-- **A node is in its place** when its ends are code tokens, its brackets nest and its children stand in a
    row. -/
theorem Of.placed (h : d.Of ts) {a b : Linked} (ha : (Code.ofChain d.chain).at? i = some a)
    (hfirst : n.first = some a.1) (hb : (Code.ofChain d.chain).at? j = some b)
    (hlast : n.last = some b.1) (hle : i ≤ j) (hnests : Nests (Code.ofChain d.chain) i [] (j + 1) [])
    (hrow : Row d.tree.arena (Code.ofChain d.chain) i n.children (j + 1)) : n.Placed d i j where
  span := h.holds.span?_eq ha hfirst hb hlast
  le := hle
  linked := by
    rintro x (hx | hx)
    · rw [hfirst] at hx
      cases hx
      exact h.linked_of_at? ha
    · rw [hlast] at hx
      cases hx
      exact h.linked_of_at? hb
  inside := by
    intro c hc
    obtain ⟨m, k, l, hm, hspans, hk, hl, hlt⟩ := hrow.exists_span hc
    exact ⟨k, l, h.span?_of_spans hm hspans, hk, hl, Nat.le_of_lt_succ hlt⟩
  apart := h.row_pairwise hrow
  balanced := hnests.foldlM_slice

/-- Every node that records how it was read is in its place. -/
theorem Of.placed_of_owned (h : d.Of ts)
    (howned : Owned d.tree.arena (Code.ofChain d.chain) n) : ∃ i j, n.Placed d i j := by
  obtain ⟨g, kind, body, children, p, q, hrule, hbody, rfl⟩ := howned
  have hlen := List.length_pos_iff.mpr hrule.ne_nil
  have hlt := hbody.add_length_le
  obtain ⟨j, rfl⟩ : ∃ j, q = j + 1 := ⟨q - 1, by omega⟩
  have hspans := hrule.spans h.proper hbody
  obtain ⟨a, ha, hfirst⟩ := hspans.first
  obtain ⟨b, hb, hlast⟩ := hspans.last
  exact ⟨p, j, h.placed ha hfirst hb hlast hspans.le hspans.nests (hbody.row h.proper)⟩

/-- A program with code is in its place, and one without has nothing in it. -/
theorem Of.placed_program (h : d.Of ts) {k : Nat} {body : List NodeId}
    (hbody : Reads d.tree.arena (Code.ofChain d.chain) (List.replicate k (.part .statement)) 0 body
      (Code.ofChain d.chain).size) :
    (∃ i j, (programNode (Code.ofChain d.chain) body).Placed d i j) ∨
      ((Code.ofChain d.chain).size = 0 ∧
        programNode (Code.ofChain d.chain) body = ⟨.program, none, none, none, none, []⟩) := by
  by_cases hsize : (Code.ofChain d.chain).size = 0
  · right
    refine ⟨hsize, ?_⟩
    have hlen := hbody.add_length_le
    rw [hsize, List.length_replicate] at hlen
    obtain rfl : k = 0 := by omega
    obtain rfl := Reads.ids_eq_nil hbody
    have hnone : ∀ i, (Code.ofChain d.chain).at? i = none := by
      intro i
      apply Code.at?_eq_none_iff.mpr
      omega
    rw [programNode, hnone, hnone]
    rfl
  · left
    obtain ⟨j, hj⟩ : ∃ j, (Code.ofChain d.chain).size = j + 1 :=
      ⟨(Code.ofChain d.chain).size - 1, by omega⟩
    obtain ⟨a, ha⟩ := Code.exists_at? (show 0 < (Code.ofChain d.chain).size by omega)
    obtain ⟨b, hb⟩ := Code.exists_at? (show j < (Code.ofChain d.chain).size by omega)
    have hnests := hbody.nests h.proper (neutral_replicate k _ [])
    have hrow := hbody.row h.proper
    rw [hj] at hnests hrow
    refine ⟨0, j, h.placed ha ?_ hb ?_ (Nat.zero_le j) hnests hrow⟩
    · rw [programNode, ha]
      rfl
    · rw [programNode, hj, Nat.add_sub_cancel, hb]
      rfl

end Document

/-- **Every node of a text is in its place.** Its span begins and ends with linked code tokens, the end not
    before the beginning; the spans of its children are in it, apart and in order; and the brackets in it are
    balanced. The one exception is the program of a text without code, which has no span and no children. -/
theorem placed_or_no_code {s : String} {d : Document} (h : Document.read s = .ok d) {id : NodeId}
    {n : Node} (hn : d.tree.arena.get? id = some n) :
    (∃ i j, n.Placed d i j) ∨
      ((Code.ofChain d.chain).size = 0 ∧ n = ⟨.program, none, none, none, none, []⟩) := by
  obtain ⟨ts, hof, -⟩ := Document.read_eq_ok_iff.mp h
  rcases hof.sound.nodes id n hn with rfl | howned
  · obtain ⟨k, body, hbody, hroot⟩ := hof.sound.program
    rw [hroot] at hn
    cases hn
    exact hof.placed_program hbody
  · exact .inl (hof.placed_of_owned howned)

/-- A call whose callee and first argument are in parentheses. -/
theorem placed_or_no_code_call :
    ∃ d n, Document.read "(f)((a), [b]);" = .ok d ∧ d.tree.arena.get? 4 = some n ∧
      n = ⟨.callExpression, some 0, some 12, none, some 0, [0, 1, 3]⟩ ∧
      ((∃ i j, n.Placed d i j) ∨
        ((Code.ofChain d.chain).size = 0 ∧ n = ⟨.program, none, none, none, none, []⟩)) := by
  obtain ⟨d, hread, hnode⟩ := Document.exists_read (s := "(f)((a), [b]);")
    (fun d => d.tree.arena.get? 4 =
      some ⟨.callExpression, some 0, some 12, none, some 0, [0, 1, 3]⟩)
    (by decide +kernel)
  exact ⟨d, _, hread, hnode, rfl, placed_or_no_code hread hnode⟩

end ScriptSpacing
