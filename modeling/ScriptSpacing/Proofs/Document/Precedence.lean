import ScriptSpacing.Proofs.Document.Placed
import ScriptSpacing.Proofs.Syntax.Operand

/-!
# `Proofs.Document.Precedence` — how the operators of a document group

The operator of an operation is the one token between its operands that is no parenthesis
(`Arena.operator?`). An operand is bare on the side away from the operator when it reaches to the end of the
operation there, with no parenthesis in between. What a bare operand may be is fixed by the level it was read
at: `Node.Grouped` says it of the two operands of an operation, `Node.Applied` of the one operand of a sign or
an update, and every node of a document satisfies what applies to its kind (`operators_group`).
-/

namespace ScriptSpacing
open Grammar

/-! ## Operators by position -/

/-- The tokens from the position `p` up to `q` that are no parentheses. -/
def Code.marks (code : Code) (p q : Nat) : List Token :=
  ((code.slice p q).map (·.2)).filter fun t => !(t.is "(" || t.is ")")

namespace Code

variable {code : Code} {e : Linked} {p q r : Nat}

theorem marks_append (hp : p ≤ r) (hq : r ≤ q) :
    code.marks p r ++ code.marks r q = code.marks p q := by
  rw [marks, marks, marks, ← List.filter_append, ← List.map_append, slice_append hp hq]

theorem marks_succ (h : code.at? p = some e) (hopen : e.2.text ≠ "(") (hclose : e.2.text ≠ ")") :
    code.marks p (p + 1) = [e.2] := by
  rw [marks, slice_succ h]
  simp [Token.is, hopen, hclose]

/-- Where only parentheses stand there are no marks. -/
theorem marks_eq_nil {s : String} (hs : s = "(" ∨ s = ")") (h : Filled code s p q) :
    code.marks p q = [] := by
  rw [marks, List.filter_eq_nil_iff]
  intro t ht
  obtain ⟨e, he, rfl⟩ := List.mem_map.mp ht
  obtain ⟨i, hi⟩ := List.getElem?_of_mem he
  rw [getElem?_slice] at hi
  split at hi
  · next hlt =>
      have htext := h.all (p + i) (by omega) (by omega)
      rw [is_eq_of_at? hi, Token.is_eq_true] at htext
      rcases hs with rfl | rfl <;> simp [Token.is, htext]
  · cases hi

/-- **One mark between parentheses**: closing ones before it, opening ones behind it. -/
theorem marks_between (hback : Filled code ")" p r) (hat : code.at? r = some e)
    (hopen : e.2.text ≠ "(") (hclose : e.2.text ≠ ")") (hfront : Filled code "(" (r + 1) q) :
    code.marks p q = [e.2] := by
  have hle := hfront.le
  calc code.marks p q
      = code.marks p r ++ code.marks r q := (marks_append hback.le (by omega)).symm
    _ = code.marks p r ++ (code.marks r (r + 1) ++ code.marks (r + 1) q) := by
        rw [marks_append (Nat.le_succ r) hle]
    _ = [e.2] := by
        rw [marks_eq_nil (.inr rfl) hback, marks_eq_nil (.inl rfl) hfront,
          marks_succ hat hopen hclose]
        rfl

end Code

/-- **The operator of an operation**: the one token strictly between the spans of its two children that is no
    parenthesis. -/
def Arena.operator? (ar : Arena) (code : Code) (n : Node) : Option Token :=
  match n.children.map (ar.span? code) with
  | [some (_, j), some (i, _)] =>
    match code.marks (j + 1) i with
    | [t] => some t
    | _   => none
  | _ => none

/-- The node `n` is an operation with the operator `op`, which binds at the level `level`. -/
structure Node.Operates (d : Document) (n : Node) (op : Token) (level : Nat) : Prop where
  operator : d.tree.arena.operator? (Code.ofChain d.chain) n = some op
  binds    : binaryOperator? op = some (level, n.kind)

/-- **The operands of an operation.** A bare left operand is no loose expression, and an operation only if it
    binds at least as tightly; none with `**`. A bare right operand is no loose expression, and an operation
    only if it binds more tightly, or if both are `**`. -/
structure Node.Grouped (d : Document) (n l r : Node) (op : Token) (level : Nat) : Prop where
  operates : n.Operates d op level
  left     : l.first = n.first → l.kind ∉ looseKinds ∧ (l.kind.isBinaryLike = true →
    op.text ≠ "**" ∧ ∃ op' level', l.Operates d op' level' ∧ level ≤ level')
  right    : r.last = n.last → r.kind ∉ looseKinds ∧ (r.kind.isBinaryLike = true →
    ∃ op' level', r.Operates d op' level' ∧
      (level < level' ∨ (op.text = "**" ∧ op'.text = "**")))

/-- Neither a loose expression nor an operation. -/
def Node.Tight (n : Node) : Prop := n.kind ∉ looseKinds ∧ n.kind.isBinaryLike = false

/-- **The operand of a sign or an update.** The operator is the one token of the node outside its operand
    that is no parenthesis; it is the first token of the node or the last. An operand that it touches is
    tight. -/
inductive Node.Applied (d : Document) (n a : Node) (op : Token) : Prop where
  | before {i j k m : Nat} (outer : n.span? (Code.ofChain d.chain) = some (i, j))
      (inner : a.span? (Code.ofChain d.chain) = some (k, m))
      (operator : ((Code.ofChain d.chain).at? i).map (·.2) = some op)
      (front : (Code.ofChain d.chain).marks i k = [op])
      (back : (Code.ofChain d.chain).marks (m + 1) (j + 1) = [])
      (bare : i + 1 = k → a.Tight) : Applied d n a op
  | behind {i j k m : Nat} (outer : n.span? (Code.ofChain d.chain) = some (i, j))
      (inner : a.span? (Code.ofChain d.chain) = some (k, m))
      (operator : ((Code.ofChain d.chain).at? j).map (·.2) = some op)
      (front : (Code.ofChain d.chain).marks i k = [])
      (back : (Code.ofChain d.chain).marks (m + 1) (j + 1) = [op])
      (bare : m + 1 = j → a.Tight) : Applied d n a op

namespace Document

variable {d : Document} {ts : List Token} {n : Node} {g : Part} {kind : Node.Kind}
  {body : List Symbol} {children : List NodeId} {id : NodeId} {level least i j k m p q : Nat}

/-! ## Operations -/

/-- The span of a node that was read. -/
theorem Of.span?_spanning (h : d.Of ts) (hrule : Grammar.Rule g kind body)
    (hbody : Reads d.tree.arena (Code.ofChain d.chain) body i children (j + 1)) :
    (Node.spanning (Code.ofChain d.chain) kind children i (j + 1)).span? (Code.ofChain d.chain) =
      some (i, j) := by
  have hs := hrule.spans h.proper hbody
  obtain ⟨a, ha, hfirst⟩ := hs.first
  obtain ⟨b, hb, hlast⟩ := hs.last
  exact h.holds.span?_eq ha hfirst hb hlast

theorem Of.arena_span? (h : d.Of ts) (hrule : Grammar.Rule g kind body)
    (hbody : Reads d.tree.arena (Code.ofChain d.chain) body i children (j + 1))
    (hnode : d.tree.arena.get? id =
      some (Node.spanning (Code.ofChain d.chain) kind children i (j + 1))) :
    d.tree.arena.span? (Code.ofChain d.chain) id = some (i, j) := by
  rw [Arena.span?, hnode]
  exact h.span?_spanning hrule hbody

/-- **Between two operands there are parentheses and the operator.** -/
theorem Of.operates (h : d.Of ts)
    (hbody : Reads d.tree.arena (Code.ofChain d.chain) [.part (.binary k),
      .token (.binaryOperator level kind), .part (.binary m)] p children q) :
    ∃ op, (Node.spanning (Code.ofChain d.chain) kind children p q).Operates d op level := by
  obtain ⟨x, y, r, e, rfl, hleft, hat, hacc, hright⟩ := hbody.of_infix
  have hop : binaryOperator? e.2 = some (level, kind) := of_decide_eq_true hacc
  obtain ⟨hrule, hreads, hnode, hfront, hback, -⟩ := hleft.core (by simp)
  obtain ⟨hrule', hreads', hnode', hfront', hback', -⟩ := hright.core (by simp)
  obtain ⟨hopen, hclose⟩ := text_ne_of_binaryOperator? hop
  refine ⟨e.2, ?_, hop⟩
  show (match [d.tree.arena.span? (Code.ofChain d.chain) x,
      d.tree.arena.span? (Code.ofChain d.chain) y] with
    | [some (_, j), some (i, _)] =>
      match (Code.ofChain d.chain).marks (j + 1) i with
      | [t] => some t
      | _   => none
    | _ => none) = some e.2
  rw [h.arena_span? hrule hreads hnode, h.arena_span? hrule' hreads' hnode']
  show (match (Code.ofChain d.chain).marks _ _ with
    | [t] => some t
    | _   => none) = some e.2
  rw [Code.marks_between hback hat hopen hclose hfront']

/-- **A bare operand** is no loose expression, and if it is an operation, one of its level or above. -/
theorem Of.bare_operand (h : d.Of ts) (hrule : Grammar.Rule g kind body)
    (hbody : Reads d.tree.arena (Code.ofChain d.chain) body p children q) (hg : g.IsOperand least) :
    kind ∉ looseKinds ∧ (kind.isBinaryLike = true → ∃ op level,
      (Node.spanning (Code.ofChain d.chain) kind children p q).Operates d op level ∧
      least ≤ level) := by
  refine ⟨hrule.not_loose hbody hg, ?_⟩
  intro hkind
  obtain ⟨least', level, rfl, hle, rfl⟩ := hrule.of_isBinaryLike hkind
  obtain ⟨op, hop⟩ := h.operates hbody
  exact ⟨op, level, hop, Nat.le_trans hg hle⟩

/-- Two nodes that begin at code tokens begin at the same one only if their positions are the same. -/
theorem Of.eq_of_first_eq (h : d.Of ts) {a b : Linked} (ha : (Code.ofChain d.chain).at? i = some a)
    (hb : (Code.ofChain d.chain).at? j = some b)
    (heq : ((Code.ofChain d.chain).at? i).map (·.1) = ((Code.ofChain d.chain).at? j).map (·.1)) :
    i = j := by
  rw [ha, hb] at heq
  exact (h.holds.at?_inj ha hb).mp (Option.some.inj heq)

/-- **The operands of an operation are grouped** as the levels of the operators say. -/
theorem Of.grouped (h : d.Of ts) (hrule : Grammar.Rule g kind body) (hkind : kind.isBinaryLike = true)
    (hbody : Reads d.tree.arena (Code.ofChain d.chain) body p children (q + 1)) :
    ∃ x y l r op level, children = [x, y] ∧ d.tree.arena.get? x = some l ∧
      d.tree.arena.get? y = some r ∧
      (Node.spanning (Code.ofChain d.chain) kind children p (q + 1)).Grouped d l r op level := by
  obtain ⟨-, level, -, -, rfl⟩ := id (hrule.of_isBinaryLike hkind)
  have hspans := hrule.spans h.proper hbody
  obtain ⟨op, hop⟩ := h.operates hbody
  have hstars := text_eq_iff_of_binaryOperator? hop.binds
  obtain ⟨x, y, m, e, rfl, hleft, -, -, hright⟩ := hbody.of_infix
  obtain ⟨hruleL, hreadsL, hnodeL, -, -, hbareL⟩ := hleft.core (by simp)
  obtain ⟨hruleR, hreadsR, hnodeR, -, -, hbareR⟩ := hright.core (by simp)
  refine ⟨x, y, _, _, op, level, rfl, hnodeL, hnodeR, hop, ?_, ?_⟩
  · intro hfirst
    obtain ⟨a, ha, -⟩ := hspans.first
    obtain ⟨b, hb, -⟩ := (hruleL.spans h.proper hreadsL).first
    have hpos := h.eq_of_first_eq hb ha hfirst
    obtain ⟨hloose, htight⟩ :=
      h.bare_operand hruleL hreadsL (hbareL (.inl hpos) (leftLevel level) (Nat.le_refl _))
    refine ⟨hloose, fun hbinary => ?_⟩
    obtain ⟨op', level', hop', hle⟩ := htight hbinary
    have hlevel := (binaryOperator?_spec hop'.binds).1
    unfold leftLevel at hle
    split at hle
    · omega
    · next hne => exact ⟨fun htext => hne (hstars.mp htext), op', level', hop', hle⟩
  · intro hlast
    obtain ⟨a, ha, -⟩ := hspans.last
    obtain ⟨b, hb, -⟩ := (hruleR.spans h.proper hreadsR).last
    have hpos := h.eq_of_first_eq hb ha hlast
    obtain ⟨hloose, htight⟩ :=
      h.bare_operand hruleR hreadsR (hbareR (.inr (by omega)) (rightLevel level) (Nat.le_refl _))
    refine ⟨hloose, fun hbinary => ?_⟩
    obtain ⟨op', level', hop', hle⟩ := htight hbinary
    refine ⟨op', level', hop', ?_⟩
    have hlevel := (binaryOperator?_spec hop'.binds).1
    unfold rightLevel at hle
    split at hle
    · next heq =>
        right
        have hmost : level' = exponentLevel := by omega
        exact ⟨hstars.mpr heq, (text_eq_iff_of_binaryOperator? hop'.binds).mpr hmost⟩
    · exact .inl hle

/-! ## Signs and updates -/

/-- A bare operand that is read above every level is tight. -/
theorem Of.bare_tight (h : d.Of ts) (hrule : Grammar.Rule g kind body)
    (hbody : Reads d.tree.arena (Code.ofChain d.chain) body p children q)
    (hg : g.IsOperand (exponentLevel + 1)) :
    (Node.spanning (Code.ofChain d.chain) kind children p q).Tight := by
  obtain ⟨hloose, hbinary⟩ := h.bare_operand hrule hbody hg
  refine ⟨hloose, ?_⟩
  show kind.isBinaryLike = false
  by_contra hkind
  obtain ⟨op, level, hop, hle⟩ := hbinary (by simpa using hkind)
  have hmost := (binaryOperator?_spec hop.binds).1
  omega

/-- A sign or an update before its operand. -/
theorem Of.applied_before (h : d.Of ts) {t : Terminal} (ht : t.Applies kind)
    (hrule : Grammar.Rule g kind [.token t, .part .unary])
    (hbody : Reads d.tree.arena (Code.ofChain d.chain) [.token t, .part .unary] p children (q + 1)) :
    ∃ x a op, children = [x] ∧ d.tree.arena.get? x = some a ∧ t.accepts op = true ∧
      (Node.spanning (Code.ofChain d.chain) kind children p (q + 1)).Applied d a op := by
  have houter := h.span?_spanning hrule hbody
  cases hbody with
  | @token _ e _ _ _ _ hat hacc hrest =>
      obtain ⟨x, r, ids, rfl, hpart, hnil⟩ := hrest.of_part_cons
      cases hnil
      obtain ⟨hrule', hreads', hnode, hfront, hback, hbare⟩ := hpart.core (by simp)
      obtain ⟨hopen, hclose⟩ := text_ne_of_applies ht hacc
      have hop := congrArg (Option.map (·.2)) hat
      refine ⟨x, _, e.2, rfl, hnode, hacc, .before houter (h.span?_spanning hrule' hreads') hop
        (Code.marks_between (.refl _ _ _) hat hopen hclose hfront)
        (Code.marks_eq_nil (.inr rfl) hback) ?_⟩
      intro htouch
      exact h.bare_tight hrule' hreads' (hbare (.inl htouch.symm) _ trivial)

/-- An update behind its operand. -/
theorem Of.applied_behind (h : d.Of ts) {t : Terminal} (ht : t.Applies kind)
    (hrule : Grammar.Rule g kind [.part .operand, .token t])
    (hbody : Reads d.tree.arena (Code.ofChain d.chain) [.part .operand, .token t] p children (q + 1)) :
    ∃ x a op, children = [x] ∧ d.tree.arena.get? x = some a ∧ t.accepts op = true ∧
      (Node.spanning (Code.ofChain d.chain) kind children p (q + 1)).Applied d a op := by
  have houter := h.span?_spanning hrule hbody
  obtain ⟨x, r, ids, rfl, hpart, hrest⟩ := hbody.of_part_cons
  cases hrest with
  | @token _ e _ _ _ _ hat hacc hnil =>
      cases hnil
      obtain ⟨hrule', hreads', hnode, hfront, hback, hbare⟩ := hpart.core (by simp)
      obtain ⟨hopen, hclose⟩ := text_ne_of_applies ht hacc
      have hop := congrArg (Option.map (·.2)) hat
      refine ⟨x, _, e.2, rfl, hnode, hacc, .behind houter (h.span?_spanning hrule' hreads') hop
        (Code.marks_eq_nil (.inl rfl) hfront)
        (Code.marks_between hback hat hopen hclose (.refl _ _ _)) ?_⟩
      intro htouch
      exact h.bare_tight hrule' hreads' (hbare (.inr htouch) _ trivial)

/-- **The operand of a sign or an update is tight** where the operator touches it. -/
theorem Of.applied (h : d.Of ts) (hrule : Grammar.Rule g kind body)
    (hkind : kind = .unaryExpression ∨ kind = .updateExpression)
    (hbody : Reads d.tree.arena (Code.ofChain d.chain) body p children (q + 1)) :
    ∃ (t : Terminal) (x : NodeId) (a : Node) (op : Token), children = [x] ∧
      d.tree.arena.get? x = some a ∧ t.Applies kind ∧
      t.accepts op = true ∧
      (Node.spanning (Code.ofChain d.chain) kind children p (q + 1)).Applied d a op := by
  obtain ⟨t, ht, rfl | rfl⟩ := hrule.of_one_operand hbody hkind
  · obtain ⟨x, a, op, hchildren, hnode, hacc, happlied⟩ := h.applied_before ht hrule hbody
    exact ⟨t, x, a, op, hchildren, hnode, ht, hacc, happlied⟩
  · obtain ⟨x, a, op, hchildren, hnode, hacc, happlied⟩ := h.applied_behind ht hrule hbody
    exact ⟨t, x, a, op, hchildren, hnode, ht, hacc, happlied⟩

/-- A node that is no program records how it was read. -/
theorem Of.exists_rule (h : d.Of ts) (hn : d.tree.arena.get? id = some n) (hkind : n.kind ≠ .program) :
    ∃ g kind body children p q, Grammar.Rule g kind body ∧
      Reads d.tree.arena (Code.ofChain d.chain) body p children (q + 1) ∧
      n = Node.spanning (Code.ofChain d.chain) kind children p (q + 1) := by
  rcases h.sound.nodes id n hn with rfl | ⟨g, kind, body, children, p, q, hrule, hbody, rfl⟩
  · obtain ⟨k, program, -, hroot⟩ := h.sound.program
    rw [hroot] at hn
    cases hn
    exact absurd rfl hkind
  · have hlen := List.length_pos_iff.mpr hrule.ne_nil
    have hlt := hbody.add_length_le
    obtain ⟨j, rfl⟩ : ∃ j, q = j + 1 := ⟨q - 1, by omega⟩
    exact ⟨g, kind, body, children, p, j, hrule, hbody, rfl⟩

end Document

/-- **Operators group by their levels.** An operation has two operands and one operator between them. On the
    side away from it, a bare operand is no loose expression, and an operation only if its operator binds
    tightly enough: at least as tightly on the left, but no operation before `**`, and more tightly on the
    right, or `**` after `**`. The operand of a sign or an update that the operator touches is neither a
    loose expression nor an operation. -/
theorem operators_group {s : String} {d : Document} (h : Document.read s = .ok d) {id : NodeId}
    {n : Node} (hn : d.tree.arena.get? id = some n) :
    (n.kind.isBinaryLike = true → ∃ x y l r op level, n.children = [x, y] ∧
      d.tree.arena.get? x = some l ∧ d.tree.arena.get? y = some r ∧ n.Grouped d l r op level) ∧
    (n.kind = .unaryExpression ∨ n.kind = .updateExpression →
      ∃ (t : Terminal) (x : NodeId) (a : Node) (op : Token), n.children = [x] ∧
      d.tree.arena.get? x = some a ∧ t.Applies n.kind ∧ t.accepts op = true ∧
      n.Applied d a op) := by
  obtain ⟨ts, hof, -⟩ := Document.read_eq_ok_iff.mp h
  constructor
  · intro hkind
    have hprogram : n.kind ≠ .program := by
      intro heq
      rw [heq] at hkind
      cases hkind
    obtain ⟨g, kind, body, children, p, q, hrule, hbody, rfl⟩ := hof.exists_rule hn hprogram
    exact hof.grouped hrule hkind hbody
  · intro hkind
    have hprogram : n.kind ≠ .program := by
      intro heq
      rw [heq] at hkind
      rcases hkind with hkind | hkind <;> cases hkind
    obtain ⟨g, kind, body, children, p, q, hrule, hbody, rfl⟩ := hof.exists_rule hn hprogram
    exact hof.applied hrule hkind hbody

/-- A power of a difference in parentheses, whose exponent is a power again. -/
theorem operators_group_powers :
    ∃ d n, Document.read "x = a - (b - c) ** -d ** e;" = .ok d ∧ d.tree.arena.get? 9 = some n ∧
      n = ⟨.binaryExpression, some 8, some 23, none, none, [4, 8]⟩ ∧
      (n.kind.isBinaryLike = true → ∃ x y l r op level, n.children = [x, y] ∧
        d.tree.arena.get? x = some l ∧ d.tree.arena.get? y = some r ∧
        n.Grouped d l r op level) ∧
      (n.kind = .unaryExpression ∨ n.kind = .updateExpression →
        ∃ (t : Grammar.Terminal) (x : NodeId) (a : Node) (op : Token), n.children = [x] ∧
          d.tree.arena.get? x = some a ∧ t.Applies n.kind ∧ t.accepts op = true ∧
          n.Applied d a op) := by
  obtain ⟨d, hread, hnode⟩ := Document.exists_read (s := "x = a - (b - c) ** -d ** e;")
    (fun d => d.tree.arena.get? 9 =
      some ⟨.binaryExpression, some 8, some 23, none, none, [4, 8]⟩)
    (by decide +kernel)
  exact ⟨d, _, hread, hnode, rfl, operators_group hread hnode⟩

end ScriptSpacing
