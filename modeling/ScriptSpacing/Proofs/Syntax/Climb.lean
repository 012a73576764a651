import ScriptSpacing.Proofs.Syntax.Makes
import ScriptSpacing.Proofs.Syntax.Soundness.Expression

/-!
# `Proofs.Syntax.Climb` — productions built from narrower ones

What a narrow production builds, every wider one builds too, if the token that follows has a higher rank than
the wider one: an operand becomes a unary expression, an operation, a conditional, an assignment and a
sequence of one (`Builds.unary_of_callMember` up to `Builds.expression_of_assignment`). Where the token has the
rank of the production itself, the production goes on and builds a node of its own (`Builds.operation` and the
others).
-/

namespace ScriptSpacing
namespace Grammar
open ScriptSpacing.Parser

variable {again : Grammar} {code : Code} {ar : Arena} {i j : TokenId} {t t' : Token} {id : NodeId}
  {out out' out'' : Outline} {least p q r : Nat}

/-! ## Stopping -/

/-- No member and no call follows. -/
theorem makes_suffixes_stop (hrank : 0 < code.rank q) (hid : Depicts ar code [id] [out]) (n : Nat) :
    Makes code (suffixes again i id n) q ar q fun ar' id => Depicts ar' code [id] [out] := by
  cases n with
  | zero => exact .pure hid
  | succ n =>
      have hnext := Code.no_suffix hrank
      refine .check hnext.call (.eat_false hnext.optional ?_)
      exact .eat_false hnext.named (.check hnext.computed (.pure hid))

theorem Builds.callMember_of_primary (hat : code.at? p = some (i, t))
    (hnew : code.is p "new" = false) (h : Builds code (primary again) p q out)
    (hrank : 0 < code.rank q) : Builds code (callMember again) p q out := by
  intro ar
  refine .peek hat (.check hnew (.bind (h ar) ?_))
  intro id ar' _ hid
  exact .left (makes_suffixes_stop hrank hid _)

theorem Builds.unary_of_callMember (hat : code.at? p = some (i, t)) (ht : t.NoOperator)
    (h : Builds code (callMember again) p q out) (hrank : 1 < code.rank q) :
    Builds code (unary again) p q out := by
  intro ar
  refine .peek hat ?_
  dsimp only
  rw [ht.sign, ht.update]
  refine .bind (h ar) ?_
  intro id ar' _ hid
  refine .current ?_
  cases hq : code.at? q with
  | none => exact .pure hid
  | some e =>
      dsimp only
      rw [Code.no_update hrank hq]
      exact .pure hid

/-- No operation of the level follows. -/
theorem makes_operations_stop (hrank : 2 < code.rank q) (hid : Depicts ar code [id] [out]) (n : Nat) :
    Makes code (operations again least i id n) q ar q fun ar' id => Depicts ar' code [id] [out] := by
  cases n with
  | zero => exact .pure hid
  | succ n =>
      refine .current ?_
      cases hq : code.at? q with
      | none => exact .pure hid
      | some e =>
          dsimp only [Option.bind_some]
          rw [Code.no_operation hrank hq]
          exact .pure hid

theorem Builds.binary_of_unary (hat : code.at? p = some (i, t)) (h : Builds code (unary again) p q out)
    (hrank : 2 < code.rank q) : Builds code (binary again least) p q out := by
  intro ar
  refine .peek hat (.bind (h ar) ?_)
  intro id ar' _ hid
  exact .left (makes_operations_stop hrank hid _)

theorem Builds.conditional_of_binary (hat : code.at? p = some (i, t))
    (h : Builds code (binary again 1) p q out) (hrank : 3 < code.rank q) :
    Builds code (conditional again) p q out := by
  intro ar
  refine .peek hat (.bind (h ar) ?_)
  intro id ar' _ hid
  exact .eat_false (Code.no_conditional hrank) (.pure hid)

theorem Builds.assignment_of_conditional (hat : code.at? p = some (i, t))
    (harrow : code.beginsArrow p = false) (h : Builds code (conditional again) p q out)
    (hrank : 4 < code.rank q) : Builds code (assignment again) p q out := by
  intro ar
  refine .step (atArrow_apply code _) ?_
  rw [harrow]
  refine .peek hat (.bind (h ar) ?_)
  intro id ar' _ hid
  refine .current ?_
  cases hq : code.at? q with
  | none => exact .pure hid
  | some e =>
      dsimp only
      rw [Code.no_assignment hrank hq]
      exact .pure hid

theorem Builds.expression_of_assignment (hat : code.at? p = some (i, t))
    (h : Builds code (assignment again) p q out) (hrank : 5 < code.rank q) :
    Builds code (expression again) p q out := by
  intro ar
  refine .peek hat (.bind (h ar) ?_)
  intro id ar' _ hid
  exact .check (Code.no_sequence hrank) (.pure hid)

theorem Builds.expression_of_conditional (hat : code.at? p = some (i, t))
    (harrow : code.beginsArrow p = false) (h : Builds code (conditional again) p q out)
    (hrank : 5 < code.rank q) : Builds code (expression again) p q out :=
  expression_of_assignment hat (assignment_of_conditional hat harrow h (by omega)) hrank

theorem Builds.expression_of_binary (hat : code.at? p = some (i, t))
    (harrow : code.beginsArrow p = false) (h : Builds code (binary again 1) p q out)
    (hrank : 5 < code.rank q) : Builds code (expression again) p q out :=
  expression_of_conditional hat harrow (conditional_of_binary hat h (by omega)) hrank

theorem Builds.expression_of_unary (hat : code.at? p = some (i, t))
    (harrow : code.beginsArrow p = false) (h : Builds code (unary again) p q out)
    (hrank : 5 < code.rank q) : Builds code (expression again) p q out :=
  expression_of_binary hat harrow (binary_of_unary hat h (by omega)) hrank

theorem Builds.expression_of_callMember (hat : code.at? p = some (i, t)) (ht : t.NoOperator)
    (harrow : code.beginsArrow p = false) (h : Builds code (callMember again) p q out)
    (hrank : 5 < code.rank q) : Builds code (expression again) p q out :=
  expression_of_unary hat harrow (unary_of_callMember hat ht h (by omega)) hrank

/-! ## Going on -/

/-- A sign before its operand. -/
theorem Builds.sign (hat : code.at? p = some (i, t)) (hsign : isUnaryOperator t = true)
    (h : Builds code (again .unary) (p + 1) q out) (hlt : p < q) :
    Builds code (unary again) p q (.branch .unaryExpression [out]) := by
  intro ar
  refine .peek hat ?_
  dsimp only
  rw [hsign]
  refine .bump (.bind (h ar) ?_)
  intro id ar' _ hid
  exact makes_finish hat hlt hid (by decide)

/-- An update before its operand. -/
theorem Builds.update_before (hat : code.at? p = some (i, t)) (hsign : isUnaryOperator t = false)
    (hupdate : isUpdateOperator t = true) (h : Builds code (again .unary) (p + 1) q out) (hlt : p < q) :
    Builds code (unary again) p q (.branch .updateExpression [out]) := by
  intro ar
  refine .peek hat ?_
  dsimp only
  rw [hsign, hupdate]
  refine .bump (.bind (h ar) ?_)
  intro id ar' _ hid
  exact makes_finish hat hlt hid (by decide)

/-- An update behind its operand. -/
theorem Builds.update_behind (hat : code.at? p = some (i, t)) (ht : t.NoOperator)
    (h : Builds code (callMember again) p q out) (hop : code.at? q = some (j, t'))
    (hop' : isUpdateOperator t' = true) (hle : p ≤ q) :
    Builds code (unary again) p (q + 1) (.branch .updateExpression [out]) := by
  intro ar
  refine .peek hat ?_
  dsimp only
  rw [ht.sign, ht.update]
  refine .bind (h ar) ?_
  intro id ar' _ hid
  refine .current ?_
  rw [hop]
  dsimp only
  rw [hop']
  exact .bump (makes_finish hat (Nat.lt_succ_of_le hle) hid (by decide))

/-- Every operator binds at some level. -/
theorem one_le_of_binaryOperator? {level : Nat} {kind : Node.Kind}
    (h : binaryOperator? t = some (level, kind)) : 1 ≤ level := by
  unfold binaryOperator? at h
  split at h
  · split at h
    all_goals cases h
    all_goals decide
  · cases h

/-- **An operation**: an operator of the level or above, and no other behind its right operand. -/
theorem Builds.operation {level : Nat} {kind : Node.Kind} (hat : code.at? p = some (i, t))
    (h : Builds code (unary again) p q out) (hop : code.at? q = some (j, t'))
    (hop' : binaryOperator? t' = some (level, kind)) (hlevel : least ≤ level)
    (h' : Builds code (again (.binary (rightLevel level))) (q + 1) r out') (hlt : p < r)
    (hrank : 2 < code.rank r) :
    Builds code (binary again least) p r (.branch kind [out, out']) := by
  intro ar
  have hplain : kind ∉ linkingKinds := by
    intro hmem
    have hbinary := (binaryOperator?_spec hop').2
    simp only [linkingKinds, List.mem_cons, List.not_mem_nil, or_false] at hmem
    rcases hmem with rfl | rfl | rfl <;> cases hbinary
  refine .peek hat (.bind (h ar) ?_)
  intro id ar₁ _ hid
  refine .left ?_
  obtain ⟨n, hn⟩ : ∃ n, code.size - q = n + 1 := by
    have hq := Code.lt_size_of_at? hop
    exact ⟨code.size - q - 1, by omega⟩
  rw [hn]
  refine .current ?_
  rw [hop]
  dsimp only [Option.bind_some]
  rw [hop']
  dsimp only
  rw [if_neg (Nat.not_lt.mpr hlevel)]
  refine .bump (.bind (h' ar₁) ?_)
  intro id' ar₂ hext hid'
  refine .bind (makes_finish hat hlt ((hid.mono hext).append hid') hplain) ?_
  intro operation ar₃ _ hoperation
  exact makes_operations_stop hrank hoperation n

/-- A test with two outcomes. -/
theorem Builds.choice {m : Nat} (hat : code.at? p = some (i, t))
    (h : Builds code (binary again 1) p q out) (hask : code.is q "?" = true)
    (h' : Builds code (again .assignment) (q + 1) r out') (helse : code.at? r = some (j, t'))
    (helse' : t'.text = ":") (h'' : Builds code (again .assignment) (r + 1) m out'') (hlt : p < m) :
    Builds code (conditional again) p m (.branch .conditionalExpression [out, out', out'']) := by
  intro ar
  refine .peek hat (.bind (h ar) ?_)
  intro test ar₁ _ htest
  refine .eat_true hask (.bind (h' ar₁) ?_)
  intro consequent ar₂ hext₂ hconsequent
  refine .expect helse helse' (.bind (h'' ar₂) ?_)
  intro alternate ar₃ hext₃ halternate
  have hboth := (htest.mono hext₂).append hconsequent
  exact makes_finish hat hlt ((hboth.mono hext₃).append halternate) (by decide)

/-- An assignment. -/
theorem Builds.store (hat : code.at? p = some (i, t)) (harrow : code.beginsArrow p = false)
    (h : Builds code (conditional again) p q out) (hop : code.at? q = some (j, t'))
    (hop' : isAssignmentOperator t' = true) (h' : Builds code (again .assignment) (q + 1) r out')
    (hlt : p < r) : Builds code (assignment again) p r (.branch .assignmentExpression [out, out']) := by
  intro ar
  refine .step (atArrow_apply code _) ?_
  rw [harrow]
  refine .peek hat (.bind (h ar) ?_)
  intro target ar₁ _ htarget
  refine .current ?_
  rw [hop]
  dsimp only
  rw [hop']
  refine .bump (.bind (h' ar₁) ?_)
  intro value ar₂ hext hvalue
  exact makes_finish hat hlt ((htarget.mono hext).append hvalue) (by decide)

/-- An arrow function with its parameters in parentheses and an expression as its body. -/
theorem Builds.arrowFunction {m : Nat} {outs : List Outline} (hopen : code.is p "(" = true)
    (harrow : code.beginsArrow p = true) (h : BuildsAll code (arguments again) p q outs)
    (hat : code.at? q = some (j, t')) (htext : t'.text = "=>") (hbody : code.is (q + 1) "\x7b" = false)
    (h' : Builds code (again .assignment) (q + 1) m out) (hlt : p < m) :
    Builds code (assignment again) p m (.branch .arrowFunctionExpression (outs ++ [out])) := by
  intro ar
  refine .step (atArrow_apply code _) ?_
  rw [harrow]
  obtain ⟨⟨i, t⟩, hstart⟩ := Option.isSome_iff_exists.mp (Option.isSome_of_any hopen)
  have hparameters : BuildsAll code (arrowParameters again) p q outs := by
    intro ar
    exact .check hopen (h ar)
  have hvalue : Builds code (arrowBody again) (q + 1) m out := by
    intro ar
    exact .check hbody (h' ar)
  refine .peek hstart (.bind (hparameters ar) ?_)
  intro parameters ar₁ _ hparams
  refine .expect hat htext (.bind (hvalue ar₁) ?_)
  intro body ar₂ hext hbody
  exact makes_finish hstart hlt ((hparams.mono hext).append hbody) (by decide)

/-! ## Members, calls and constructions -/

/-- An operand with one member or call behind it. -/
theorem Builds.callMember_of_suffix (hat : code.at? p = some (i, t))
    (hnew : code.is p "new" = false) (h : Builds code (primary again) p r out) (hr : r < code.size)
    (hsuffix : ∀ id ar n, Depicts ar code [id] [out] →
      Makes code (suffixes again i id (n + 1)) r ar q fun ar' id => Depicts ar' code [id] [out']) :
    Builds code (callMember again) p q out' := by
  intro ar
  refine .peek hat (.check hnew (.bind (h ar) ?_))
  intro id ar' _ hid
  refine .left ?_
  obtain ⟨n, hn⟩ : ∃ n, code.size - r = n + 1 := ⟨code.size - r - 1, by omega⟩
  rw [hn]
  exact hsuffix id ar' n hid

theorem Builds.callMember_of_call {outs : List Outline} (hat : code.at? p = some (i, t))
    (hnew : code.is p "new" = false) (h : Builds code (primary again) p r out)
    (hopen : code.is r "(" = true) (h' : BuildsAll code (arguments again) r q outs) (hlt : p < q)
    (hrank : 0 < code.rank q) :
    Builds code (callMember again) p q (.branch .callExpression (out :: outs)) := by
  refine callMember_of_suffix hat hnew h (Code.lt_size_of_is hopen) ?_
  intro id ar n hid
  have hcall : Makes code (call again i id) r ar q fun ar' id =>
      Depicts ar' code [id] [.branch .callExpression (out :: outs)] := by
    refine .bind (h' ar) ?_
    intro args ar' hext hargs
    exact makes_finishCall hat hlt (.inl rfl) ((hid.mono hext).append hargs)
  refine .check hopen (.bind hcall ?_)
  intro id' ar' _ hid'
  exact makes_suffixes_stop hrank hid' n

theorem Builds.callMember_of_named (hat : code.at? p = some (i, t)) (hnew : code.is p "new" = false)
    (h : Builds code (primary again) p r out) (hdot : code.is r "." = true)
    (hname : code.at? (r + 1) = some (j, t')) (hword : namesProperty t' = true) (hle : p ≤ r)
    (hrank : 0 < code.rank (r + 2)) :
    Builds code (callMember again) p (r + 2)
      (.branch .memberExpression [out, .leaf .identifier t']) := by
  refine callMember_of_suffix hat hnew h (Code.lt_size_of_is hdot) ?_
  intro id ar n hid
  have hmember : Makes code (namedMember i id) (r + 1) ar (r + 2) fun ar' id =>
      Depicts ar' code [id] [.branch .memberExpression [out, .leaf .identifier t']] := by
    have hleaf : Makes code propertyName (r + 1) ar (r + 2) fun ar' id =>
        Depicts ar' code [id] [.leaf .identifier t'] := by
      refine .peek hname ?_
      dsimp only
      rw [hword]
      exact makes_leaf hname (by decide)
    refine .bind hleaf ?_
    intro name ar' hext hid'
    exact makes_finish hat (by omega) ((hid.mono hext).append hid') (by decide)
  refine .check (Code.is_eq_false hdot (by decide)) ?_
  refine .eat_false (Code.is_eq_false hdot (by decide)) (.eat_true hdot (.bind hmember ?_))
  intro id' ar' _ hid'
  exact makes_suffixes_stop hrank hid' n

theorem Builds.callMember_of_computed {m : Nat} {k : TokenId} {t'' : Token}
    (hat : code.at? p = some (i, t)) (hnew : code.is p "new" = false)
    (h : Builds code (primary again) p r out) (hopen : code.at? r = some (j, t'))
    (hopen' : t'.text = "[") (h' : Builds code (again .expression) (r + 1) m out')
    (hclose : code.at? m = some (k, t'')) (hclose' : t''.text = "]") (hlt : p < m)
    (hrank : 0 < code.rank (m + 1)) :
    Builds code (callMember again) p (m + 1) (.branch .memberExpression [out, out']) := by
  have his : code.is r "[" = true := Code.is_eq_true_of_at? hopen hopen'
  refine callMember_of_suffix hat hnew h (Code.lt_size_of_is his) ?_
  intro id ar n hid
  have hmember : Makes code (computedMember again i id) r ar (m + 1) fun ar' id =>
      Depicts ar' code [id] [.branch .memberExpression [out, out']] := by
    refine .expect hopen hopen' (.bind (h' ar) ?_)
    intro name ar' hext hname
    exact .expect hclose hclose'
      (makes_finish hat (by omega) ((hid.mono hext).append hname) (by decide))
  have hother : ∀ s ∈ ["(", "?.", "."], code.is r s = false := by
    intro s hs
    refine Code.is_eq_false his ?_
    rintro rfl
    exact absurd hs (by decide)
  refine .check (hother _ (by simp)) (.eat_false (hother _ (by simp)) ?_)
  refine .eat_false (hother _ (by simp)) (.check his (.bind hmember ?_))
  intro id' ar' _ hid'
  exact makes_suffixes_stop hrank hid' n

/-- No member follows the head of a construction. -/
theorem makes_members_stop (hdot : code.is q "." = false) (hbracket : code.is q "[" = false)
    (hid : Depicts ar code [id] [out]) (n : Nat) :
    Makes code (members again i id n) q ar q fun ar' id => Depicts ar' code [id] [out] := by
  cases n with
  | zero => exact .pure hid
  | succ n => exact .eat_false hdot (.check hbracket (.pure hid))

/-- A construction with its arguments. -/
theorem Builds.construct {outs : List Outline} (hat : code.at? p = some (i, t))
    (htext : t.text = "new") (hhead : code.at? (p + 1) = some (j, t'))
    (hnew : code.is (p + 1) "new" = false) (h : Builds code (primary again) (p + 1) r out)
    (hopen : code.is r "(" = true) (h' : BuildsAll code (arguments again) r q outs) (hlt : p < q) :
    Builds code (construction again) p q (.branch .newExpression (out :: outs)) := by
  intro ar
  refine .expect hat htext (.peek hhead (.check hnew (.bind (h ar) ?_)))
  intro head ar₁ _ hhead
  have hdot : code.is r "." = false := Code.is_eq_false hopen (by decide)
  have hbracket : code.is r "[" = false := Code.is_eq_false hopen (by decide)
  refine .left (.bind (makes_members_stop hdot hbracket hhead _) ?_)
  intro callee ar₂ _ hcallee
  refine .check hopen (.bind (h' ar₂) ?_)
  intro args ar₃ hext hargs
  exact makes_finishCall hat hlt (.inr rfl) ((hcallee.mono hext).append hargs)

/-- A construction without a list of arguments. -/
theorem Builds.construct_bare (hat : code.at? p = some (i, t)) (htext : t.text = "new")
    (hhead : code.at? (p + 1) = some (j, t')) (hnew : code.is (p + 1) "new" = false)
    (h : Builds code (primary again) (p + 1) q out) (hlt : p < q) (hrank : 0 < code.rank q) :
    Builds code (construction again) p q (.branch .newExpression [out]) := by
  intro ar
  refine .expect hat htext (.peek hhead (.check hnew (.bind (h ar) ?_)))
  intro head ar₁ _ hhead
  have hnext := Code.no_suffix hrank
  refine .left (.bind (makes_members_stop hnext.named hnext.computed hhead _) ?_)
  intro callee ar₂ _ hcallee
  exact .check hnext.call (makes_finishCall hat hlt (.inr rfl) hcallee)

theorem Builds.callMember_of_construction (hat : code.at? p = some (i, t)) (htext : t.text = "new")
    (h : Builds code (construction again) p q out) (hrank : 0 < code.rank q) :
    Builds code (callMember again) p q out := by
  intro ar
  have hcheck : code.is p "new" = true := Code.is_eq_true_of_at? hat htext
  refine .peek hat (.check hcheck (.bind (h ar) ?_))
  intro id ar' _ hid
  exact .left (makes_suffixes_stop hrank hid _)

end Grammar
end ScriptSpacing
