import ScriptSpacing.Proofs.Syntax.Completeness.Operand

/-!
# `Proofs.Syntax.Completeness.Expression` — written expressions are read back

What stands between the parentheses of a written expression is read as that expression
(`Rereads.builds_inner`), by one case for each form of it. Where the form begins with a token of its own, that
token decides; where it begins with an operand in parentheses, the token behind the operand does: its rank
says which production goes on, and an arrow function begins there only if it is an arrow.
-/

namespace ScriptSpacing
namespace Grammar
open ScriptSpacing.Parser

variable {code : Code} {again : Grammar} {e : Expr} {i : TokenId} {m p q r : Nat}

/-! ## Behind an operand -/

/-- No arrow function begins at an operand that another token than an arrow follows. -/
theorem beginsArrow_of_is {s : String} (hpaired : code.Paired) (h : code.Stands e.render p r)
    (hs : code.is r s = true) (hne : s ≠ "=>") : code.beginsArrow p = false := by
  rw [beginsArrow_render hpaired h]
  exact Code.is_eq_false hs hne

/-! ## The forms of an expression -/

namespace Rereads

variable {e' e'' : Expr} (hag : Rereads code m again) (hpaired : code.Paired)
  (hsize : code.size ≤ p + m + 1) (hrank : 5 < code.rank q)

include hag hsize hrank

theorem inner_sign {op : Word .unaryOperator} (h : code.Stands (Expr.unary op e).inner p q) :
    Builds code (expression again) p q (Expr.unary op e).outline := by
  obtain ⟨⟨⟨i, t⟩, hat, htext⟩, hoperand⟩ := h
  obtain rfl : t = op.1 := htext
  have hle := lt_of_stands_render hoperand
  have hsign : isUnaryOperator op.1 = true := op.2.1
  have hvalue : Builds code (again .unary) (p + 1) q e.outline :=
    hag.whole (by omega) hoperand (Nat.lt_trans (by decide) hrank)
  have hname : op.1.kind ≠ .identifier := by
    intro hkind
    simp [isUnaryOperator, hkind] at hsign
  have harrow := Code.beginsArrow_eq_false hat hname (op.text_ne (.inl rfl) rfl)
  exact .expression_of_unary hat harrow (.sign hat hsign hvalue (by omega)) hrank

theorem inner_update_before {op : Word .updateOperator}
    (h : code.Stands (Expr.prefixUpdate op e).inner p q) :
    Builds code (expression again) p q (Expr.prefixUpdate op e).outline := by
  obtain ⟨⟨⟨i, t⟩, hat, htext⟩, hoperand⟩ := h
  obtain rfl : t = op.1 := htext
  have hle := lt_of_stands_render hoperand
  have hupdate : isUpdateOperator op.1 = true := op.2.1
  have htext : op.1.text = "++" ∨ op.1.text = "--" := by
    simpa [isUpdateOperator] using hupdate
  have hsign : isUnaryOperator op.1 = false := by
    rcases htext with htext | htext <;> simp [isUnaryOperator, htext]
  have hvalue : Builds code (again .unary) (p + 1) q e.outline :=
    hag.whole (by omega) hoperand (Nat.lt_trans (by decide) hrank)
  have hkind : op.1.kind = .punctuator := by
    apply op.2.2.punctuator
    rcases htext with htext | htext <;> rw [htext] <;> decide
  have harrow := Code.beginsArrow_eq_false hat (by rw [hkind]; decide)
    (op.text_ne (.inl rfl) rfl)
  exact .expression_of_unary hat harrow (.update_before hat hsign hupdate hvalue (by omega)) hrank

theorem inner_construct {es : List Expr}
    (h : code.Stands (Expr.construction e es).inner p q) :
    Builds code (expression again) p q (Expr.construction e es).outline := by
  obtain ⟨⟨⟨i, t⟩, hat, htext⟩, hrest⟩ := h
  obtain ⟨r, hhead, hargs⟩ := Code.stands_append.mp hrest
  obtain rfl : t = newToken := htext
  obtain ⟨j, -, -, hat', -, -, -⟩ := stands_render hhead
  have hlt := lt_of_stands_render hhead
  have hle := hargs.add_length
  have hopen : code.is r "(" = true := Code.is_of_punctuator hargs.1
  have hbuilt : Builds code (construction again) p q (Expr.construction e es).outline :=
    .construct hat rfl hat' (not_new_of_stands_render hhead) (hag.builds_primary (by omega) hhead)
      hopen (hag.builds_arguments (by omega) hargs) (by omega)
  have harrow := Code.beginsArrow_eq_false hat (by decide) (by decide)
  have hfirst : newToken.NoOperator := Token.noOperator_of_text (by decide)
  exact .expression_of_callMember hat hfirst harrow
    (.callMember_of_construction hat rfl hbuilt (by omega)) hrank

theorem inner_construct_bare (h : code.Stands (Expr.bareConstruction e).inner p q) :
    Builds code (expression again) p q (Expr.bareConstruction e).outline := by
  obtain ⟨⟨⟨i, t⟩, hat, htext⟩, hhead⟩ := h
  obtain rfl : t = newToken := htext
  obtain ⟨j, -, -, hat', -, -, -⟩ := stands_render hhead
  have hlt := lt_of_stands_render hhead
  have hbuilt : Builds code (construction again) p q (Expr.bareConstruction e).outline :=
    .construct_bare hat rfl hat' (not_new_of_stands_render hhead)
      (hag.builds_primary (by omega) hhead) (by omega) (by omega)
  have harrow := Code.beginsArrow_eq_false hat (by decide) (by decide)
  have hfirst : newToken.NoOperator := Token.noOperator_of_text (by decide)
  exact .expression_of_callMember hat hfirst harrow
    (.callMember_of_construction hat rfl hbuilt (by omega)) hrank

theorem inner_array {es : List Expr} (h : code.Stands (Expr.array es).inner p q) :
    Builds code (expression again) p q (Expr.array es).outline := by
  obtain ⟨⟨⟨i, t⟩, hat, htext⟩, -⟩ := id h
  obtain rfl : t = .punctuator "[" := htext
  have hnew : code.is p "new" = false := Code.is_eq_false_of_at? hat (by decide)
  have harrow := Code.beginsArrow_eq_false hat (by decide) (by decide)
  exact .expression_of_callMember hat (Token.noOperator_of_text (by decide)) harrow
    (.callMember_of_primary hat hnew (hag.builds_array hsize h) (by omega)) hrank

theorem inner_object {ms : List Member} (h : code.Stands (Expr.object ms).inner p q) :
    Builds code (expression again) p q (Expr.object ms).outline := by
  obtain ⟨⟨⟨i, t⟩, hat, htext⟩, -⟩ := id h
  obtain rfl : t = .punctuator "\x7b" := htext
  have hnew : code.is p "new" = false := Code.is_eq_false_of_at? hat (by decide)
  have harrow := Code.beginsArrow_eq_false hat (by decide) (by decide)
  exact .expression_of_callMember hat (Token.noOperator_of_text (by decide)) harrow
    (.callMember_of_primary hat hnew (hag.builds_object hsize h) (by omega)) hrank

include hpaired

/-! Behind an operand in front, the token that follows says which production goes on. -/

theorem inner_update_behind {op : Word .updateOperator}
    (h : code.Stands (Expr.postfixUpdate e op).inner p q) :
    Builds code (expression again) p q (Expr.postfixUpdate e op).outline := by
  obtain ⟨r, hoperand, ⟨⟨j, t⟩, hop, htext⟩, hq⟩ := Code.stands_append.mp h
  obtain rfl : t = op.1 := htext
  obtain rfl : r + 1 = q := hq
  obtain ⟨i, -, -, hat, -, -, -⟩ := stands_render hoperand
  have hle := lt_of_stands_render hoperand
  have hnext : code.rank r = 1 := by
    rw [Code.rank_of_at? hop]
    exact Token.rank_of_isUpdateOperator op.2.1
  have hoperand' := hag.builds_callMember hsize hoperand (by omega)
  have harrow := beginsArrow_of_rank hpaired hoperand (by omega)
  exact .expression_of_unary hat harrow
    (.update_behind hat noOperator_paren hoperand' hop op.2.1 (by omega)) hrank

theorem inner_operation {level : Nat} {kind : Node.Kind} {op : Word (.binaryOperator level kind)}
    (h : code.Stands (Expr.binary e op e').inner p q) :
    Builds code (expression again) p q (Expr.binary e op e').outline := by
  obtain ⟨r, hleft, ⟨⟨j, t⟩, hop, htext⟩, hright⟩ := Code.stands_append.mp h
  obtain rfl : t = op.1 := htext
  obtain ⟨i, -, -, hat, -, -, -⟩ := stands_render hleft
  have hle := lt_of_stands_render hleft
  have hle' := lt_of_stands_render hright
  have hop' : binaryOperator? op.1 = some (level, kind) := of_decide_eq_true op.2.1
  have hnext : code.rank r = 2 := by
    rw [Code.rank_of_at? hop]
    exact Token.rank_of_binaryOperator? hop'
  have hleft' := hag.builds_unary hsize hleft (by omega)
  have hright' : Builds code (again (.binary (rightLevel level))) (r + 1) q e'.outline :=
    hag.whole (by omega) hright (Nat.lt_trans (by decide : 2 < 5) hrank)
  have harrow := beginsArrow_of_rank hpaired hleft (by omega)
  exact .expression_of_binary hat harrow
    (.operation hat hleft' hop hop' (one_le_of_binaryOperator? hop') hright' (by omega) (by omega)) hrank

theorem inner_store {op : Word .assignmentOperator}
    (h : code.Stands (Expr.assignment e op e').inner p q) :
    Builds code (expression again) p q (Expr.assignment e op e').outline := by
  obtain ⟨r, htarget, ⟨⟨j, t⟩, hop, htext⟩, hvalue⟩ := Code.stands_append.mp h
  obtain rfl : t = op.1 := htext
  obtain ⟨i, -, -, hat, -, -, -⟩ := stands_render htarget
  have hle := lt_of_stands_render htarget
  have hle' := lt_of_stands_render hvalue
  have hnext : code.rank r = 4 := by
    rw [Code.rank_of_at? hop]
    exact Token.rank_of_isAssignmentOperator op.2.1
  have htarget' := hag.builds_conditional hsize htarget (by omega)
  have hvalue' : Builds code (again .assignment) (r + 1) q e'.outline :=
    hag.whole (by omega) hvalue (Nat.lt_trans (by decide) hrank)
  have harrow := beginsArrow_of_rank hpaired htarget (by omega)
  exact .expression_of_assignment hat
    (.store hat harrow htarget' hop op.2.1 hvalue' (by omega)) hrank

theorem inner_choice (h : code.Stands (Expr.conditional e e' e'').inner p q) :
    Builds code (expression again) p q (Expr.conditional e e' e'').outline := by
  obtain ⟨r, htest, hask, hrest⟩ := Code.stands_append.mp h
  obtain ⟨k, hconsequent, ⟨⟨j, t⟩, helse, htext⟩, halternate⟩ := Code.stands_append.mp hrest
  obtain rfl : t = .punctuator ":" := htext
  obtain ⟨i, -, -, hat, -, -, -⟩ := stands_render htest
  have hask' := Code.is_of_punctuator hask
  have hle := lt_of_stands_render htest
  have hle' := lt_of_stands_render hconsequent
  have hle'' := lt_of_stands_render halternate
  have hnext : code.rank r = 3 := Code.rank_of_is hask' (by decide)
  have hnext' : code.rank k = 6 := by
    rw [Code.rank_of_at? helse]
    rfl
  have htest' : Builds code (binary again 1) p r e.outline := hag.builds_binary hsize htest (by omega)
  have hconsequent' : Builds code (again .assignment) (r + 1) k e'.outline :=
    hag.whole (by omega) hconsequent (by rw [hnext']; decide)
  have halternate' : Builds code (again .assignment) (k + 1) q e''.outline :=
    hag.whole (by omega) halternate (Nat.lt_trans (by decide) hrank)
  have harrow := beginsArrow_of_rank hpaired htest (by omega)
  exact .expression_of_conditional hat harrow
    (.choice hat htest' hask' hconsequent' helse rfl halternate' (by omega)) hrank

theorem inner_sequence {es : List Expr} (h : code.Stands (Expr.sequence e e' es).inner p q) :
    Builds code (expression again) p q (Expr.sequence e e' es).outline := by
  obtain ⟨r, hhead, hcomma, hrest⟩ := Code.stands_append.mp h
  obtain ⟨i, -, -, hat, -, -, -⟩ := stands_render hhead
  have hle := lt_of_stands_render hhead
  have hle' := Code.Stands.add_length hrest
  have hcomma' := Code.is_of_punctuator hcomma
  have hnext : code.rank r = 5 := Code.rank_of_is hcomma' (by decide)
  have hhead' := hag.builds_assignment hpaired hsize hhead (by omega)
  rw [← renders, renders_eq_map] at hrest
  have hbuilt := builds_sequence (hag.each (show ")" ≠ "(" by decide)) hat hhead' hcomma'
    (List.cons_ne_nil e' es) hrest (by omega) (by omega) hrank
  rwa [← outlines_eq_map] at hbuilt

theorem inner_call {es : List Expr} (h : code.Stands (Expr.call e es).inner p q) :
    Builds code (expression again) p q (Expr.call e es).outline := by
  obtain ⟨r, hcallee, hargs⟩ := Code.stands_append.mp h
  obtain ⟨i, -, -, hat, -, -, -⟩ := stands_render hcallee
  have hlt := lt_of_stands_render hcallee
  have hle := hargs.add_length
  have hopen : code.is r "(" = true := Code.is_of_punctuator hargs.1
  have hbuilt : Builds code (callMember again) p q (Expr.call e es).outline :=
    .callMember_of_call hat (not_new_of_stands_render hcallee) (hag.builds_primary hsize hcallee)
      hopen (hag.builds_arguments (by omega) hargs) (by omega) (by omega)
  have harrow := beginsArrow_of_is hpaired hcallee hopen (by decide)
  exact .expression_of_callMember hat noOperator_paren harrow hbuilt hrank

theorem inner_named {word : Word .name} (h : code.Stands (Expr.namedMember e word).inner p q) :
    Builds code (expression again) p q (Expr.namedMember e word).outline := by
  obtain ⟨r, hobject, hdot, ⟨⟨j, t⟩, hname, htext⟩, hq⟩ := Code.stands_append.mp h
  obtain rfl : t = word.1 := htext
  obtain rfl : r + 2 = q := hq
  obtain ⟨i, -, -, hat, -, -, -⟩ := stands_render hobject
  have hlt := lt_of_stands_render hobject
  have hdot' := Code.is_of_punctuator hdot
  have hbuilt : Builds code (callMember again) p (r + 2) (Expr.namedMember e word).outline :=
    .callMember_of_named hat (not_new_of_stands_render hobject) (hag.builds_primary hsize hobject)
      hdot' hname word.2.1 (by omega) (by omega)
  have harrow := beginsArrow_of_is hpaired hobject hdot' (by decide)
  exact .expression_of_callMember hat noOperator_paren harrow hbuilt hrank

theorem inner_computed (h : code.Stands (Expr.computedMember e e').inner p q) :
    Builds code (expression again) p q (Expr.computedMember e e').outline := by
  obtain ⟨r, hobject, ⟨⟨j, t⟩, hopen, htext⟩, hrest⟩ := Code.stands_append.mp h
  obtain ⟨k, hname, ⟨⟨l, t'⟩, hclose, htext'⟩, hq⟩ := Code.stands_append.mp hrest
  obtain rfl : t = .punctuator "[" := htext
  obtain rfl : t' = .punctuator "]" := htext'
  obtain rfl : k + 1 = q := hq
  obtain ⟨i, -, -, hat, -, -, -⟩ := stands_render hobject
  have hlt := lt_of_stands_render hobject
  have hlt' := lt_of_stands_render hname
  have hnext : code.rank k = 6 := by
    rw [Code.rank_of_at? hclose]
    rfl
  have hname' : Builds code (again .expression) (r + 1) k e'.outline :=
    hag.whole (by omega) hname (by rw [hnext]; decide)
  have hbuilt : Builds code (callMember again) p (k + 1) (Expr.computedMember e e').outline :=
    .callMember_of_computed hat (not_new_of_stands_render hobject) (hag.builds_primary hsize hobject)
      hopen rfl hname' hclose rfl (by omega) (by omega)
  have hbracket : code.is r "[" = true := Code.is_eq_true_of_at? hopen rfl
  have harrow := beginsArrow_of_is hpaired hobject hbracket (by decide)
  exact .expression_of_callMember hat noOperator_paren harrow hbuilt hrank

theorem inner_arrow {es : List Expr} (h : code.Stands (Expr.arrow es e).inner p q) :
    Builds code (expression again) p q (Expr.arrow es e).outline := by
  obtain ⟨r, hparams, ⟨⟨j, t⟩, hat', htext⟩, hbody⟩ := Code.stands_append.mp h
  obtain rfl : t = .punctuator "=>" := htext
  obtain ⟨⟨i, t⟩, hat, -⟩ := id hparams.1
  obtain ⟨k, -, -, hfirst, -, -, -⟩ := stands_render hbody
  have hlt := lt_of_stands_render hbody
  have hle := hparams.add_length
  have harrow : code.beginsArrow p = true := by
    rw [Code.beginsArrow_of_stands hpaired hparams (matched_commas (matched_renders es))]
    exact Code.is_eq_true_of_at? hat' rfl
  have hbrace : code.is (r + 1) "\x7b" = false := Code.is_eq_false_of_at? hfirst (by decide)
  have hbody' : Builds code (again .assignment) (r + 1) q e.outline :=
    hag.whole (by omega) hbody (Nat.lt_trans (by decide) hrank)
  exact .expression_of_assignment hat
    (.arrowFunction (Code.is_of_punctuator hparams.1) harrow (hag.builds_arguments hsize hparams) hat' rfl hbrace
      hbody' (by omega)) hrank

/-- **An expression without the parentheses around it** is read as an expression. -/
theorem builds_inner (h : code.Stands e.inner p q) : Builds code (expression again) p q e.outline := by
  cases e with
  | name word =>
      obtain ⟨⟨⟨i, t⟩, hat, htext⟩, hq⟩ := h
      obtain rfl : t = word.1 := htext
      obtain rfl : p + 1 = q := hq
      have harrow := beginsArrow_name hat (by omega)
      exact .expression_of_callMember hat (word.noOperator (.inl rfl)) harrow
        (builds_name hat (by omega)) hrank
  | literal word =>
      obtain ⟨⟨⟨i, t⟩, hat, htext⟩, hq⟩ := h
      obtain rfl : t = word.1 := htext
      obtain rfl : p + 1 = q := hq
      have hname : word.1.kind ≠ .identifier := by
        intro hkind
        have hacc := word.2.1
        simp [Terminal.accepts, hkind] at hacc
      have harrow := Code.beginsArrow_eq_false hat hname (word.text_ne (.inl rfl) rfl)
      exact .expression_of_callMember hat (word.noOperator (.inr rfl)) harrow
        (builds_literal hat (by omega)) hrank
  | this word =>
      obtain ⟨⟨⟨i, t⟩, hat, htext⟩, hq⟩ := h
      obtain rfl : t = word.1 := htext
      obtain rfl : p + 1 = q := hq
      have htext : word.1.text = "this" := Token.is_eq_true.mp word.2.1
      have hkind : word.1.kind = .keyword := by
        apply word.2.2.keyword
        rw [htext]
        decide
      have harrow := Code.beginsArrow_eq_false hat (by rw [hkind]; decide)
        (word.text_ne (.inl rfl) rfl)
      exact .expression_of_callMember hat (Token.noOperator_of_text (by rw [htext]; decide)) harrow
        (builds_this hat (by omega)) hrank
  | unary op e => exact hag.inner_sign hsize hrank h
  | prefixUpdate op e => exact hag.inner_update_before hsize hrank h
  | postfixUpdate e op => exact hag.inner_update_behind hpaired hsize hrank h
  | binary left op right => exact hag.inner_operation hpaired hsize hrank h
  | assignment target op value => exact hag.inner_store hpaired hsize hrank h
  | conditional test consequent alternate => exact hag.inner_choice hpaired hsize hrank h
  | sequence head next rest => exact hag.inner_sequence hpaired hsize hrank h
  | call callee arguments => exact hag.inner_call hpaired hsize hrank h
  | construction callee arguments => exact hag.inner_construct hsize hrank h
  | bareConstruction callee => exact hag.inner_construct_bare hsize hrank h
  | namedMember object word => exact hag.inner_named hpaired hsize hrank h
  | computedMember object name => exact hag.inner_computed hpaired hsize hrank h
  | array elements => exact hag.inner_array hsize hrank h
  | object members => exact hag.inner_object hsize hrank h
  | arrow parameters body => exact hag.inner_arrow hpaired hsize hrank h

end Rereads

end Grammar
end ScriptSpacing
