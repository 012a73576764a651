import ScriptSpacing.Proofs.Syntax.Completeness.Expression
import ScriptSpacing.Proofs.Syntax.Yield

/-!
# `Proofs.Syntax.Completeness.Program` — writing and reading back

One round of the grammar keeps that written expressions are read back (`Rereads.next_round`), so any number of
rounds does (`rereads_upTo`): the code of an expression is read as the expression, however deep it is. The
main statement is `Tree.ofChain_assigned`: the assignment of a written expression to a name is read as a tree
of the shape of that expression.
-/

namespace ScriptSpacing
namespace Grammar
open ScriptSpacing.Parser

variable {code : Code} {again : Grammar} {e : Expr} {word : Word .identifier} {i : TokenId}
  {m p q : Nat}

/-! ## All rounds -/

/-- **One more round keeps reading back.** -/
theorem Rereads.next_round (hag : Rereads code m again) (hpaired : code.Paired) :
    Rereads code (m + 1) (round again) where
  inner := by
    intro e p q hsize h hrank
    exact hag.builds_inner hpaired hsize hrank h
  whole := by
    intro goal e p q hsize h hrank
    have hmost := code.rank_le q
    cases goal with
    | unary => exact hag.builds_unary hsize h hrank
    | binary least => exact hag.builds_binary hsize h hrank
    | assignment => exact hag.builds_assignment hpaired hsize h hrank
    | expression => exact hag.builds_expression hpaired hsize h hrank
    | statement => exact absurd hrank (Nat.not_lt.mpr hmost)
    | construction => exact absurd hrank (Nat.not_lt.mpr hmost)

/-- Every expression has a token. -/
theorem Expr.inner_ne_nil (e : Expr) : e.inner ≠ [] := by
  cases e with
  | postfixUpdate => exact List.append_ne_nil_of_right_ne_nil _ (List.cons_ne_nil _ _)
  | sequence head next rest => exact List.append_ne_nil_of_left_ne_nil (List.cons_ne_nil _ _) _
  | _ => exact List.cons_ne_nil _ _

/-- **Expressions are read back** by any number of rounds that the tokens left do not exceed. -/
theorem rereads_upTo (hpaired : code.Paired) (n : Nat) : Rereads code n (upTo n) := by
  induction n with
  | zero =>
      -- a token stands at `p`, so some are left
      have hnone : ∀ {ts : List Token} {p q : Nat}, ts ≠ [] → code.Stands ts p q → ¬code.size ≤ p := by
        intro ts p q hne h
        obtain ⟨t, ts, rfl⟩ := List.exists_cons_of_ne_nil hne
        obtain ⟨⟨e, hat, -⟩, -⟩ := h
        exact Nat.not_le.mpr (Code.lt_size_of_at? hat)
      constructor
      · intro e p q hsize h
        exact absurd hsize (hnone e.inner_ne_nil h)
      · intro goal e p q hsize h
        exact absurd hsize (hnone (List.cons_ne_nil _ _) h)
  | succ n ih => exact ih.next_round hpaired

/-! ## An assignment as a program -/

/-- The tokens that assign an expression to a name. -/
def assigned (word : Word .identifier) (e : Expr) : List Token :=
  word.1 :: .punctuator "=" :: (e.render ++ [.punctuator ";"])

/-- The shape of the program that assigns an expression to a name. -/
def assignedOutline (word : Word .identifier) (e : Expr) : Outline :=
  .branch .program [.branch .expressionStatement [.branch .assignmentExpression
    [.leaf .identifier word.1, e.outline]]]

/-- The assignment as an expression, up to the semicolon. -/
theorem Rereads.builds_assigned {j : TokenId} (hag : Rereads code m again) (hsize : code.size ≤ p + m + 1)
    (hat : code.at? p = some (i, word.1)) (hop : code.at? (p + 1) = some (j, .punctuator "="))
    (h : code.Stands e.render (p + 2) q) (hrank : 5 < code.rank q) :
    Builds code (expression again) p q
      (.branch .assignmentExpression [.leaf .identifier word.1, e.outline]) := by
  have hlt := lt_of_stands_render h
  have hnext : code.rank (p + 1) = 4 := by
    rw [Code.rank_of_at? hop]
    rfl
  have hfirst := word.noOperator (.inl rfl)
  have hname : Builds code (callMember again) p (p + 1) (.leaf .identifier word.1) :=
    builds_name hat (by omega)
  have htarget : Builds code (conditional again) p (p + 1) (.leaf .identifier word.1) :=
    .conditional_of_binary hat
      (.binary_of_unary hat (.unary_of_callMember hat hfirst hname (by omega)) (by omega))
      (by omega)
  have hvalue : Builds code (again .assignment) (p + 2) q e.outline :=
    hag.whole (by omega) h (Nat.lt_trans (by decide) hrank)
  have harrow := beginsArrow_name hat (by omega)
  exact .expression_of_assignment hat
    (.store hat harrow htarget hop rfl hvalue (by omega)) hrank

/-- No statement but an expression begins with a name. -/
theorem makes_statement_of_name {ar : Arena} {R : Arena → NodeId → Prop}
    (hat : code.at? p = some (i, word.1))
    (h : Makes code (expressionStatement again) p ar q R) : Makes code (statement again) p ar q R := by
  refine .peek hat ?_
  dsimp only
  split
  all_goals first
    | exact h
    | next htext => exact absurd htext (word.ne_keyword (.inl rfl) (by decide))
    | next htext => exact absurd htext (word.ne_punctuator rfl (by decide))

/-- An expression with its semicolon as a statement. -/
theorem Builds.expressionStatement {t : Token} {out : Outline} (hat : code.at? p = some (i, t))
    (h : Builds code (expression again) p q out) (hsemi : code.is q ";" = true) (hle : p ≤ q) :
    Builds code (Grammar.expressionStatement again) p (q + 1) (.branch .expressionStatement [out]) := by
  intro ar
  refine .peek hat (.bind (h ar) ?_)
  intro id ar' _ hid
  refine .eat_true hsemi (.step (lastRead_of_lt (Nat.lt_succ_of_le hle)) ?_)
  have hspan : Node.spanning code .expressionStatement [id] p (q + 1) =
      { kind := .expressionStatement, first := some i, last := (code.at? (q + 1 - 1)).map (·.1),
        expression := some id, children := [id] } := by
    rw [Node.spanning, hat]
    rfl
  rw [← hspan]
  exact makes_node hid

/-- **The assignment of an expression is read as a program.** -/
theorem makes_program (hpaired : code.Paired) (h : code.Stands (assigned word e) 0 code.size) :
    Makes code program 0 {} code.size fun ar id => Depicts ar code [id] [assignedOutline word e] := by
  obtain ⟨⟨⟨i, t⟩, hat, htext⟩, ⟨⟨j, t'⟩, hop, htext'⟩, hrest⟩ := h
  obtain ⟨q, hvalue, ⟨⟨k, t''⟩, hend, htext''⟩, hq⟩ := Code.stands_append.mp hrest
  obtain rfl : t = word.1 := htext
  obtain rfl : t' = .punctuator "=" := htext'
  obtain rfl : t'' = .punctuator ";" := htext''
  have hsize : code.size = q + 1 := hq.symm
  have hlt := lt_of_stands_render hvalue
  have hrank : code.rank q = 6 := by
    rw [Code.rank_of_at? hend]
    rfl
  have hsemi : code.is q ";" = true := Code.is_eq_true_of_at? hend rfl
  have hstatement : Builds code (statement (upTo q)) 0 (q + 1) (.branch .expressionStatement
      [.branch .assignmentExpression [.leaf .identifier word.1, e.outline]]) := by
    intro ar
    apply makes_statement_of_name hat
    apply Builds.expressionStatement hat _ hsemi (Nat.zero_le q)
    exact (rereads_upTo hpaired q).builds_assigned (by omega) hat hop hvalue (by omega)
  have hbody : Makes code (programBody (upTo (q + 1)) [] (q + 1)) 0 {} (q + 1) fun ar ids =>
      Depicts ar code ids.reverse [.branch .expressionStatement
        [.branch .assignmentExpression [.leaf .identifier word.1, e.outline]]] := by
    refine .step (atEnd_apply code _) ?_
    rw [decide_eq_false (by rw [hsize]; exact Nat.not_succ_le_zero q)]
    refine .bind (hstatement {}) ?_
    intro id ar _ hid
    -- one statement is all there is
    cases q with
    | zero => exact .pure hid
    | succ q =>
        refine .step (atEnd_apply code _) ?_
        rw [decide_eq_true (Nat.le_of_eq hsize)]
        exact .pure hid
  refine .left ?_
  rw [Nat.sub_zero, hsize]
  refine .bind hbody (fun ids ar _ hids => .step rfl ?_)
  have hspan : Node.spanning code .program ids.reverse 0 (q + 1) =
      { kind := .program, first := (code.at? 0).map (·.1),
        last := (code.at? (code.size - 1)).map (·.1), children := ids.reverse } := by
    rw [hsize]
    rfl
  dsimp only
  rw [← hspan]
  exact makes_node hids

end Grammar

/-- **Writing an expression and reading it back gives the expression.** Where the code tokens of a chain
    assign a written expression to a name, the chain is read as a tree of the shape of that assignment: the
    same kinds, the same children in the same order, the same tokens at the leaves, and links from exactly the
    calls and constructions to their callees. -/
theorem Tree.ofChain_assigned (ch : Chain) (word : Grammar.Word .identifier) (e : Grammar.Expr)
    (h : ch.toList.filter (·.isCode) = Grammar.assigned word e) :
    ∃ t, Tree.ofChain ch = .ok t ∧
      Grammar.Depicts t.arena (Code.ofChain ch) [t.root] [Grammar.assignedOutline word e] := by
  have htokens : (Code.ofChain ch).tokens.toList.map (·.2) = Grammar.assigned word e := by
    rw [← h, Chain.toList, List.filter_map]
    rfl
  have hstands := Code.stands_self (Code.ofChain ch)
  rw [htokens] at hstands
  obtain ⟨root, ar, hrun, -, hroot⟩ := Grammar.makes_program (Code.paired_ofChain ch) hstands
  refine ⟨⟨ar, root⟩, ?_, hroot⟩
  rw [Tree.ofChain, Tree.ofCode, hrun]

/-- A call whose argument is an arrow function with a parenthesized parameter. -/
theorem Tree.ofChain_assigned_arrow :
    ∃ (word : Grammar.Word .identifier) (e : Grammar.Expr) (t : Tree),
      (Grammar.assigned word e).map (·.text) = ["x", "=", "(", "(", "f", ")", "(", "(", "(", "(", "a",
        ")", ")", "=>", "(", "(", "a", ")", "+", "(", "1", ")", ")", ")", ")", ")", ";"] ∧
      (Chain.ofList (Grammar.assigned word e)).toList.filter (·.isCode) = Grammar.assigned word e ∧
      Tree.ofChain (Chain.ofList (Grammar.assigned word e)) = .ok t ∧
      Grammar.Depicts t.arena (Code.ofChain (Chain.ofList (Grammar.assigned word e))) [t.root]
        [Grammar.assignedOutline word e] := by
  let x : Grammar.Word .identifier := ⟨⟨.identifier, "x"⟩, by decide, by decide, by decide⟩
  let f : Grammar.Word .identifier := ⟨⟨.identifier, "f"⟩, by decide, by decide, by decide⟩
  let a : Grammar.Word .identifier := ⟨⟨.identifier, "a"⟩, by decide, by decide, by decide⟩
  let one : Grammar.Word .literal := ⟨⟨.numeric, "1"⟩, by decide, by decide, by decide⟩
  let plus : Grammar.Word (.binaryOperator 10 .binaryExpression) :=
    ⟨⟨.punctuator, "+"⟩, by decide, by decide, by decide⟩
  let e : Grammar.Expr :=
    .call (.name f) [.arrow [.name a] (.binary (.name a) plus (.literal one))]
  have hcode : (Chain.ofList (Grammar.assigned x e)).toList.filter (·.isCode) =
      Grammar.assigned x e := by decide +kernel
  obtain ⟨t, ht, hshape⟩ := ofChain_assigned (Chain.ofList (Grammar.assigned x e)) x e hcode
  exact ⟨x, e, t, rfl, hcode, ht, hshape⟩

end ScriptSpacing
