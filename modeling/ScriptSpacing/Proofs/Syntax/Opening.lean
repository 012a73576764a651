import ScriptSpacing.Proofs.Spacing.Depth
import ScriptSpacing.Proofs.Syntax.Spans

/-!
# `Proofs.Syntax.Opening` — nodes that begin with a parenthesis

A node may begin with a parenthesis that is not its own: that of an operand, of the parameters of an arrow
function, or, for a statement, the one around its expression. Where that parenthesis is closed is told by the
rule the node was read by. `Rule.opening` sorts the rules by it, and `Node.Opening` says what it comes to for
the span of a node: an expression statement ends at the closing parenthesis or with a semicolon behind it, an
update may have its operator there, and every other node goes on for two more tokens at least
(`Owned.exists_opening`).
-/

namespace ScriptSpacing

/-- **Where the parenthesis that a node begins with is closed**: the node ends at `j`, the parenthesis is
    closed at `m`. -/
inductive Node.Opening (ar : Arena) (code : Code) (n : Node) (j m : Nat) : Prop where
  /-- the parenthesis belongs to the expression of a statement -/
  | shared {inner : Node} : n.kind = .expressionStatement → n.expression.bind ar.get? = some inner →
      inner.first = n.first → Opening ar code n j m
  /-- the parenthesis is around the expression of a statement -/
  | whole : n.kind = .expressionStatement → m = j ∨ (m + 1 = j ∧ code.is j ";" = true) →
      Opening ar code n j m
  /-- the parenthesis belongs to the operand of an update -/
  | operand {e : TokenId × Token} : n.kind = .updateExpression → m < j → code.at? j = some e →
      Grammar.isUpdateOperator e.2 = true → Opening ar code n j m
  /-- the parenthesis belongs to a first part, with more behind it -/
  | further : n.kind ≠ .expressionStatement → n.kind ≠ .updateExpression → m + 2 ≤ j →
      Opening ar code n j m

namespace Grammar
open Code

variable {ar : Arena} {code : Code} {g : Part} {kind : Node.Kind} {ps ps' : List Symbol}
  {id : NodeId} {ids : List NodeId} {p q r m : Nat}

/-! ## Taking readings apart -/

/-- A part at the front is read first. -/
theorem Reads.of_part_cons (h : Reads ar code (.part g :: ps) p ids q) :
    ∃ id r ids', ids = id :: ids' ∧ Reads ar code [.part g] p [id] r ∧ Reads ar code ps r ids' q := by
  obtain ⟨qs, hqs⟩ : ∃ qs, qs = Symbol.part g :: ps := ⟨_, rfl⟩
  rw [← hqs] at h
  induction h generalizing g with
  | nil => cases hqs
  | token => cases hqs
  | node hrule hbody hnode hrest =>
      cases hqs
      exact ⟨_, _, _, rfl, .node hrule hbody hnode (.nil _), hrest⟩
  | wrap hwrap hopen hinner hclose hrest =>
      cases hqs
      exact ⟨_, _, _, rfl, .wrap hwrap hopen hinner hclose (.nil _), hrest⟩
  | lift hcov _ ih =>
      cases hqs
      obtain ⟨id, r, ids', rfl, hpart, hrest⟩ := ih rfl
      exact ⟨id, r, ids', rfl, .lift hcov hpart, hrest⟩

/-- **Two lists of symbols are read one after the other.** -/
theorem Reads.of_append : ∀ {ps : List Symbol} {p : Nat} {ids : List NodeId},
    Reads ar code (ps ++ ps') p ids q →
      ∃ r ids₁ ids₂, Reads ar code ps p ids₁ r ∧ Reads ar code ps' r ids₂ q
  | [], p, ids, h => ⟨p, [], ids, .nil p, h⟩
  | .token t :: ps, p, ids, h => by
    cases h with
    | token hat hacc hrest =>
        obtain ⟨r, ids₁, ids₂, hfront, hback⟩ := Reads.of_append hrest
        exact ⟨r, ids₁, ids₂, .token hat hacc hfront, hback⟩
  | .part g :: ps, p, ids, h => by
    obtain ⟨id, s, ids', rfl, hpart, hrest⟩ := h.of_part_cons
    obtain ⟨r, ids₁, ids₂, hfront, hback⟩ := Reads.of_append hrest
    exact ⟨r, id :: ids₁, ids₂, hpart.append hfront, hback⟩

/-- The handles of what is read are handles of nodes. -/
theorem Reads.exists_node (h : Reads ar code ps p ids q) :
    ∀ id ∈ ids, ∃ n, ar.get? id = some n := by
  induction h with
  | nil => simp
  | token _ _ _ ih => exact ih
  | node _ _ hnode _ _ ih =>
      intro id hid
      rcases List.mem_cons.mp hid with rfl | hid
      · exact ⟨_, hnode⟩
      · exact ih id hid
  | wrap _ _ _ _ _ ihinner ih =>
      intro id hid
      rcases List.mem_cons.mp hid with rfl | hid
      · exact ihinner _ List.mem_cons_self
      · exact ih id hid
  | lift _ _ ih => exact ih

/-! ## Where a first parenthesis is closed -/

/-- A parenthesis at the front of what brackets nest in is closed there. -/
theorem Reads.closes_lt (hproper : code.Proper) (h : Reads ar code ps p ids q)
    (hneutral : Neutral ps) (hne : ps ≠ []) (hcloses : code.Closes p m) : m < q := by
  have hlen := h.add_length_le
  have hpos := List.length_pos_iff.mpr hne
  have hlevel := ((h.nests hproper (hneutral [])).depth_le h.le (Nat.le_refl q)).2
  by_contra hge
  exact hcloses.first q (by omega) (by omega) hlevel

/-- Symbols behind the ones that it is closed in leave room for themselves. -/
theorem Reads.closes_add_length_le (hproper : code.Proper)
    (h : Reads ar code (ps ++ ps') p ids q) (hneutral : Neutral ps) (hne : ps ≠ [])
    (hcloses : code.Closes p m) : m + 1 + ps'.length ≤ q := by
  obtain ⟨r, ids₁, ids₂, hfront, hback⟩ := h.of_append
  have hlt := hfront.closes_lt hproper hneutral hne hcloses
  have hle := hback.add_length_le
  omega

/-- **A part is a node from its first token on, or all of it stands in parentheses** when it begins with
    one. -/
theorem Reads.first_or_closes (hproper : code.Proper) (h : Reads ar code [.part g] p [id] r)
    (hopen : code.is p "(" = true) :
    ∃ n, ar.get? id = some n ∧
      (n.first = (code.at? p).map (·.1) ∨ ∃ m, m + 1 = r ∧ code.Closes p m) := by
  obtain ⟨qs, hqs⟩ : ∃ qs, qs = [Symbol.part g] := ⟨_, rfl⟩
  obtain ⟨is, his⟩ : ∃ is, is = [id] := ⟨_, rfl⟩
  rw [← hqs, ← his] at h
  -- lifting and wrapping keep the node; only wrapping moves where it begins
  induction h generalizing g with
  | nil => cases hqs
  | token => cases hqs
  | node _ _ hnode _ =>
      cases his
      exact ⟨_, hnode, .inl rfl⟩
  | @wrap g g' opener closer _ _ _ p s q hwrap hopener hinner hclose hrest =>
      cases hqs
      cases his
      cases hrest
      obtain ⟨n, hn⟩ := hinner.exists_node id List.mem_cons_self
      refine ⟨n, hn, .inr ⟨s, rfl, ?_⟩⟩
      cases hwrap with
      | group => exact closes_of_nests hopen (hinner.nests hproper rfl) hclose
      | computedKey =>
          -- a computed key begins with another bracket
          obtain ⟨e, he, htext⟩ := is_eq_true_iff.mp hopener
          rw [is_eq_of_at? he, Token.is_eq_true, htext] at hopen
          exact absurd hopen (by decide)
  | lift _ _ ih =>
      cases hqs
      exact ih hopen rfl his

/-! ## Rules that begin with a parenthesis -/

/-- How the symbols of a rule for a kind may begin with a parenthesis. -/
inductive Opening (kind : Node.Kind) : List Symbol → Prop where
  /-- not at all: they begin with another token -/
  | token {t : Terminal} {ps : List Symbol} : t ≠ .text "(" → Opening kind (.token t :: ps)
  /-- in the left operand of an operation -/
  | operation {g g' : Part} {level : Nat} :
      Opening kind [.part g, .token (.binaryOperator level kind), .part g']
  /-- in the expression of a statement -/
  | statement {semi : List Symbol} : kind = .expressionStatement → Optional [.text ";"] semi →
      Opening kind (.part .expression :: semi)
  /-- in the operand of an update -/
  | update {g : Part} : kind = .updateExpression →
      Opening kind [.part g, .token .updateOperator]
  /-- in a front part with at least two symbols behind it -/
  | further {front back : List Symbol} : kind ≠ .expressionStatement → kind ≠ .updateExpression →
      Neutral front → front ≠ [] → 2 ≤ back.length → Opening kind (front ++ back)

/-- A single part at the front, with at least two symbols behind it. -/
theorem Opening.part (g : Part) (hstmt : kind ≠ .expressionStatement)
    (hupdate : kind ≠ .updateExpression) (hlen : 2 ≤ ps.length) :
    Opening kind (.part g :: ps) := by
  show Opening kind ([.part g] ++ ps)
  exact .further hstmt hupdate (.part g .nil) (List.cons_ne_nil _ _) hlen

/-- **Every rule for an expression or a statement of one** begins so. -/
theorem Rule.opening (h : Rule g kind ps)
    (hkind : kind ≠ .property ∧ kind ≠ .variableDeclarator) : Opening kind ps := by
  cases h with
  | property => exact absurd rfl hkind.1
  | declarator => exact absurd rfl hkind.2
  | namedMember => exact .part _ (by decide) (by decide) (by simp)
  | computedMember => exact .part _ (by decide) (by decide) (by simp)
  | @call dot args _ hargs =>
      have hlen : 2 ≤ (dot ++ args).length := by
        obtain ⟨items, -, rfl⟩ := hargs
        simp only [List.length_append, List.length_cons]
        omega
      exact .part _ (by decide) (by decide) hlen
  | calleeNamedMember => exact .part _ (by decide) (by decide) (by simp)
  | calleeComputedMember => exact .part _ (by decide) (by decide) (by simp)
  | postfixUpdate => exact .update rfl
  | binary => exact .operation
  | conditional => exact .part _ (by decide) (by decide) (by simp)
  | assignment => exact .part _ (by decide) (by decide) (by simp)
  | sequence htail hne =>
      cases htail with
      | nil => exact absurd rfl hne
      | cons => exact .part _ (by decide) (by decide) (by simp)
  | arrow hparams hbody =>
      -- the parameters are a front part, whether in parentheses or a single name
      rcases hparams with hargs | rfl
      · obtain ⟨items, -, hitems⟩ := id hargs
        exact .further (by decide) (by decide) hargs.neutral (by simp [hitems]) (by simp)
      · exact .part _ (by decide) (by decide) (by simp)
  | variableDeclaration hword =>
      have hwords : ∀ s ∈ ["var", "let", "const"], Terminal.text s ≠ .text "(" := by decide
      exact .token (hwords _ hword)
  | expressionStatement hsemi => exact .statement rfl hsemi
  | _ => exact .token (by decide)

/-! ## Nodes that begin with a parenthesis -/

/-- Only its own text accepts a parenthesis. -/
theorem Reads.not_open (hproper : code.Proper) {t : Terminal}
    (h : Reads ar code (.token t :: ps) p ids q) (ht : t ≠ .text "(") :
    code.is p "(" = false := by
  cases h with
  | @token _ e _ _ _ _ hat hacc _ =>
      rw [is_eq_of_at? hat]
      by_cases htext : ∃ s, t = .text s
      · obtain ⟨s, rfl⟩ := htext
        have hs : e.2.text = s := Token.is_eq_true.mp hacc
        have hne : s ≠ "(" := fun hs => ht (congrArg Terminal.text hs)
        simp [Token.is, hs, hne]
      · have hnot : e.2.text ∉ brackets :=
          Terminal.not_bracket (fun s hs => htext ⟨s, hs⟩) hacc (hproper p e hat)
        simp only [brackets, List.mem_cons, not_or] at hnot
        simp [Token.is, hnot.1]

/-- A statement that begins with a parenthesis shares it with its expression or is closed with it. -/
theorem Reads.statement_opening (hproper : code.Proper) {semi : List Symbol} {children : List NodeId}
    {j : Nat} (h : Reads ar code (.part .expression :: semi) p children (j + 1))
    (hsemi : Optional [.text ";"] semi) (hcloses : code.Closes p m) :
    (Node.spanning code .expressionStatement children p (j + 1)).Opening ar code j m := by
  obtain ⟨id, r, ids', rfl, hpart, hrest⟩ := h.of_part_cons
  obtain ⟨inner, hinner, hfirst | ⟨m', hend, hcloses'⟩⟩ :=
    hpart.first_or_closes hproper hcloses.opener
  · exact .shared rfl (by simpa [Node.spanning] using hinner) hfirst
  · obtain rfl := hcloses.unique hcloses'
    refine .whole rfl ?_
    cases hsemi with
    | absent =>
        cases hrest
        exact .inl (by omega)
    | present =>
        cases hrest with
        | token hat hacc hnil =>
            cases hnil
            exact .inr ⟨hend, is_eq_true_iff.mpr ⟨_, hat, Token.is_eq_true.mp hacc⟩⟩

/-- **Where the parenthesis that a node begins with is closed**, by the rule the node was read by. -/
theorem Owned.exists_opening {n : Node} (hproper : code.Proper) (h : Owned ar code n)
    (hbinary : n.kind.isBinaryLike = false)
    (hkind : n.kind ≠ .property ∧ n.kind ≠ .variableDeclarator) :
    ∃ i j, n.Spans code i j ∧ ∀ m, code.Closes i m → n.Opening ar code j m := by
  obtain ⟨g, kind, body, children, p, q, hrule, hbody, rfl⟩ := h
  have hlen := List.length_pos_iff.mpr hrule.ne_nil
  have hle := hbody.add_length_le
  obtain ⟨j, rfl⟩ : ∃ j, q = j + 1 := ⟨q - 1, by omega⟩
  refine ⟨p, j, hrule.spans hproper hbody, fun m hcloses => ?_⟩
  cases hrule.opening hkind with
  | token ht =>
      have hopen := hcloses.opener
      rw [hbody.not_open hproper ht] at hopen
      cases hopen
  | operation =>
      -- an operator says itself that its node is binary-like
      obtain ⟨id, r, ids', rfl, -, hrest⟩ := hbody.of_part_cons
      cases hrest with
      | token _ hacc _ =>
          have hop := (binaryOperator?_spec (of_decide_eq_true hacc)).2
          exact absurd hop (by simpa [Node.spanning] using hbinary)
  | statement hstmt hsemi =>
      subst hstmt
      exact hbody.statement_opening hproper hsemi hcloses
  | @update g hupdate =>
      have hsplit : Reads ar code ([.part g] ++ [.token .updateOperator]) p children (j + 1) := hbody
      have hroom := hsplit.closes_add_length_le hproper (.part g .nil) (List.cons_ne_nil _ _) hcloses
      obtain ⟨id, r, ids', rfl, -, hrest⟩ := hbody.of_part_cons
      cases hrest with
      | token hat hacc hnil =>
          cases hnil
          simp only [List.length_cons, List.length_nil] at hroom
          exact .operand hupdate (by omega) hat hacc
  | further hstmt hupdate hneutral hne hback =>
      have hroom := hbody.closes_add_length_le hproper hneutral hne hcloses
      exact .further hstmt hupdate (by omega)

end Grammar
end ScriptSpacing
